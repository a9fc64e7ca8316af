import Mathlib.Data.Finset.Card
import TokiPona.Grammar
import TokiPona.Vocabulary

namespace TokiPona

namespace WordClass

/-- The bits of any of the classes. -/
def join (classes : List WordClass) : WordClass := classes.foldr (· ||| ·) empty

theorem or_assoc (a b c : WordClass) : a ||| b ||| c = a ||| (b ||| c) :=
  congrArg WordClass.mk (BitVec.or_assoc a.bits b.bits c.bits)

theorem or_empty (a : WordClass) : a ||| empty = a := congrArg WordClass.mk BitVec.or_zero

theorem empty_or (a : WordClass) : empty ||| a = a := congrArg WordClass.mk BitVec.zero_or

theorem join_concat (classes : List WordClass) (c : WordClass) : join (classes ++ [c]) = join classes ||| c := by
  induction classes with
  | nil => exact (or_empty c).trans (empty_or c).symm
  | cons first classes ih => exact (congrArg (first ||| ·) ih).trans (or_assoc first (join classes) c).symm

end WordClass

namespace Dictionary

/-- The words of the entries with their classes. -/
def given (d : Dictionary) : List (String × WordClass) := d.entries.map fun entry ↦ (entry.text, entry.wordClass)

/-- The words of the entries with their bits as written. -/
def written (d : Dictionary) : List (String × WordClass) := d.entries.map fun entry ↦ (entry.text, ⟨entry.bits.toBitVec⟩)

def classesOf (d : Dictionary) (w : String) : List WordClass := (d.entries.filter (·.text == w)).map Entry.wordClass

/-- The first entry for the word, if there is one, has all the classes of the word. -/
def IsUniform (d : Dictionary) (w : String) : Prop :=
  ∀ entry ∈ d.entries.find? (·.text == w), entry.wordClass = .join (d.classesOf w)

instance (d : Dictionary) (w : String) : Decidable (d.IsUniform w) :=
  inferInstanceAs (Decidable (∀ entry ∈ d.entries.find? (·.text == w), entry.wordClass = .join (d.classesOf w)))

theorem isUniform_of_entries {d : Dictionary} (h : ∀ entry ∈ d.entries, d.IsUniform entry.text) (w : String) :
    d.IsUniform w := by
  intro entry hentry
  obtain rfl : entry.text = w := by simpa using List.find?_some hentry
  exact h entry (List.mem_of_find?_eq_some hentry) entry hentry

theorem isUniform_of_nodup {d : Dictionary} (h : (d.entries.map Entry.text).Nodup) (w : String) : d.IsUniform w := by
  intro entry hentry
  obtain ⟨hw, before, after, hentries, hbefore⟩ := List.find?_eq_some_iff_append.1 hentry
  -- no entry after the first has its text, so the first stands alone
  have hafter : ∀ other ∈ after, (other.text == w) = false := by
    intro other hother
    rw [hentries, List.map_append, List.map_cons] at h
    have hnotMem := (List.nodup_cons.1 (List.nodup_append.1 h).2.1).1
    refine beq_false_of_ne fun heq ↦ hnotMem ?_
    rw [beq_iff_eq.1 hw, ← heq]
    exact List.mem_map_of_mem hother
  have hclasses : d.classesOf w = [entry.wordClass] := by
    have hnil : before.filter (·.text == w) = [] := List.filter_eq_nil_iff.2 (by simpa using hbefore)
    have hnil' : after.filter (·.text == w) = [] := List.filter_eq_nil_iff.2 (by simpa using hafter)
    simp [classesOf, hentries, hw, hnil, hnil']
  rw [hclasses]
  exact (WordClass.or_empty _).symm

end Dictionary

namespace Vocabulary

def insertAll (v : Vocabulary) (given : List (String × WordClass)) : Vocabulary :=
  given.foldl (fun v (w, c) ↦ v.insert w c) v

def classesIn (given : List (String × WordClass)) (w : String) : List WordClass := (given.filter (·.1 == w)).map Prod.snd

section Given

variable {given : List (String × WordClass)} {w : String}

theorem classesIn_given (d : Dictionary) (w : String) : classesIn d.given w = d.classesOf w := by
  rw [classesIn, Dictionary.given, List.filter_map, List.map_map]
  rfl

theorem classesIn_concat_self (c : WordClass) : classesIn (given ++ [(w, c)]) w = classesIn given w ++ [c] := by
  simp [classesIn]

theorem classesIn_concat_of_ne {v : String} (h : v ≠ w) (c : WordClass) :
    classesIn (given ++ [(w, c)]) v = classesIn given v := by
  simp [classesIn, Ne.symm h]

end Given

theorem keys_addClass (w : String) (c : WordClass) (words : List (String × WordClass)) :
    (addClass w c words).map Prod.fst =
      if w ∈ words.map Prod.fst then words.map Prod.fst else words.map Prod.fst ++ [w] := by
  induction words with
  | nil => rfl
  | cons entry rest ih =>
    obtain ⟨v, d⟩ := entry
    by_cases h : v = w
    · simp [addClass, h]
    · rw [addClass, if_neg h, List.map_cons, ih, List.map_cons]
      simp only [List.mem_cons, Ne.symm h, false_or]
      split <;> rfl

/-- What a vocabulary has of the words given to it so far. -/
structure Gathers (v : Vocabulary) (given : List (String × WordClass)) : Prop where
  nodup : (v.words.map Prod.fst).Nodup
  lookup : ∀ w, v.words.lookup w = if classesIn given w = [] then none else some (.join (classesIn given w))

namespace Gathers

theorem empty : Vocabulary.empty.Gathers [] := ⟨List.nodup_nil, fun _ ↦ rfl⟩

variable {v v' : Vocabulary} {given given' : List (String × WordClass)}

theorem insert (h : v.Gathers given) (w : String) (c : WordClass) : (v.insert w c).Gathers (given ++ [(w, c)]) where
  nodup := by
    rw [Vocabulary.insert, keys_addClass]
    split
    case isTrue => exact h.nodup
    case isFalse hnew => exact List.concat_eq_append ▸ h.nodup.concat hnew
  lookup u := by
    rw [Vocabulary.insert]
    by_cases hu : u = w
    · subst hu
      rw [lookup_addClass_self, h.lookup, classesIn_concat_self, WordClass.join_concat]
      by_cases hnil : classesIn given u = []
      · simp [hnil, WordClass.join, WordClass.empty_or]
      · simp [hnil]
    · rw [lookup_addClass_of_ne hu, h.lookup, classesIn_concat_of_ne hu]

theorem insertAll (h : v.Gathers given) (more : List (String × WordClass)) : (v.insertAll more).Gathers (given ++ more) := by
  -- each step moves a word from the front of those to come to the end of those given so far
  induction more generalizing v given with
  | nil => rwa [List.append_nil]
  | cons entry more ih =>
    obtain ⟨w, c⟩ := entry
    rw [List.append_cons]
    exact ih (h.insert w c)

section Same

variable (h : v.Gathers given) (h' : v'.Gathers given') (hmem : ∀ entry, entry ∈ given' ↔ entry ∈ given)
include h h' hmem

end Same

end Gathers

theorem words_foldl_insertCompound (compounds : List Compound) (v : Vocabulary) :
    (compounds.foldl (fun v compound ↦ v.insertCompound compound.words) v).words = v.words := by
  induction compounds generalizing v with
  | nil => rfl
  | cons compound compounds ih => exact ih _

theorem ofDictionary_eq (d : Dictionary) :
    ofDictionary d = d.compounds.foldl (fun v compound ↦ v.insertCompound compound.words) (empty.insertAll d.given) := by
  rw [ofDictionary, insertAll, Dictionary.given, List.foldl_map]

theorem gathers_ofDictionary (d : Dictionary) : (ofDictionary d).Gathers d.given := by
  have hlisted : (empty.insertAll d.given).Gathers d.given := Gathers.empty.insertAll d.given
  have hwords : (ofDictionary d).words = (empty.insertAll d.given).words := by
    rw [ofDictionary_eq, words_foldl_insertCompound]
  exact ⟨hwords ▸ hlisted.nodup, hwords ▸ hlisted.lookup⟩

theorem lookup_ofDictionary (d : Dictionary) (w : String) :
    (ofDictionary d).words.lookup w = (d.classesOf w).head?.map fun _ ↦ .join (d.classesOf w) := by
  rw [(gathers_ofDictionary d).lookup, classesIn_given]
  cases d.classesOf w with
  | nil => rfl
  | cons c classes => rfl

theorem classify_lexicon_eq_iff {d : Dictionary} {w : String} :
    (ofDictionary d).lexicon.classify w = d.lexicon.classify w ↔ d.IsUniform w := by
  have hfirst : (d.classesOf w).head? = (d.entries.find? (·.text == w)).map Entry.wordClass := by
    rw [Dictionary.classesOf, List.head?_map, List.head?_filter]
  rw [lexicon, Lexicon.classify_ofListing, lookup_ofDictionary, Dictionary.lexicon, Lexicon.classify_ofListing, hfirst,
    Dictionary.IsUniform]
  cases d.entries.find? (·.text == w) with
  | none => simp
  | some entry => simpa using eq_comm

theorem mem_foldl_insertCompound (compounds : List Compound) (v : Vocabulary) (words : List String) :
    words ∈ (compounds.foldl (fun v compound ↦ v.insertCompound compound.words) v).compounds ↔
      words ∈ v.compounds ∨ ∃ compound ∈ compounds, compound.words = words := by
  induction compounds generalizing v with
  | nil => simp
  | cons compound compounds ih =>
    rw [List.foldl_cons, ih, insertCompound, List.mem_insert_iff]
    simp [or_assoc, or_left_comm, eq_comm]

theorem compounds_insertAll (given : List (String × WordClass)) (v : Vocabulary) :
    (v.insertAll given).compounds = v.compounds := by
  induction given generalizing v with
  | nil => rfl
  | cons entry given ih => exact ih _

theorem mem_compounds_ofDictionary {d : Dictionary} {words : List String} :
    words ∈ (ofDictionary d).compounds ↔ ∃ compound ∈ d.compounds, compound.words = words := by
  rw [ofDictionary_eq, mem_foldl_insertCompound, compounds_insertAll]
  simp [empty]

theorem contains_ofDictionary (d : Dictionary) (head : String) (tail : List String) :
    (ofDictionary d).compounds.contains (head :: tail) = d.compounds.any (·.isMadeOf head tail) := by
  rw [Bool.eq_iff_iff, List.contains_iff_mem, List.any_eq_true, mem_compounds_ofDictionary]
  simp only [Compound.isMadeOf_iff]

theorem licenses_lexicon {d : Dictionary} {head : String} (h : d.IsUniform head) (tail : List String) :
    (ofDictionary d).lexicon.licenses head tail = d.lexicon.licenses head tail := by
  have hclass : ((ofDictionary d).words.lookup head).getD (Lexicon.unlisted head) =
      ((d.entries.find? (·.text == head)).map Entry.wordClass).getD (Lexicon.unlisted head) :=
    classify_lexicon_eq_iff.2 h
  simp only [lexicon, Dictionary.lexicon, Lexicon.ofListing, hclass, contains_ofDictionary]

end Vocabulary

/-- Both lexicons of a dictionary answer alike, and sentences are read alike by either, if every word is uniform, as it is
where none is listed twice; and a word that is not uniform has two different classes. -/
theorem Vocabulary.lexicon_agrees (d : Dictionary) :
    ((∀ w, d.IsUniform w) →
      (∀ w, (ofDictionary d).lexicon.classify w = d.lexicon.classify w) ∧
      (∀ head tail, (ofDictionary d).lexicon.licenses head tail = d.lexicon.licenses head tail) ∧
      ∀ dialect text shown, (⟨(ofDictionary d).lexicon, dialect⟩ : Grammar).parse text shown =
        (⟨d.lexicon, dialect⟩ : Grammar).parse text shown) ∧
    ((d.entries.map Entry.text).Nodup → ∀ w, d.IsUniform w) ∧
    ∀ w, ¬ d.IsUniform w → (ofDictionary d).lexicon.classify w ≠ d.lexicon.classify w := by
  refine ⟨fun h ↦ ?_, Dictionary.isUniform_of_nodup, fun w hw heq ↦ hw (classify_lexicon_eq_iff.1 heq)⟩
  have hclassify : ∀ w, (ofDictionary d).lexicon.classify w = d.lexicon.classify w :=
    fun w ↦ classify_lexicon_eq_iff.2 (h w)
  have hlicenses : ∀ head tail, (ofDictionary d).lexicon.licenses head tail = d.lexicon.licenses head tail :=
    fun head ↦ licenses_lexicon (h head)
  have hlexicon : (ofDictionary d).lexicon = d.lexicon :=
    congr (congrArg Lexicon.mk (funext hclassify)) (funext fun head ↦ funext (hlicenses head))
  refine ⟨hclassify, hlicenses, fun dialect text shown ↦ ?_⟩
  rw [hlexicon]

/-- The standard dictionary lists no word twice. To list `pona` again with a bit that names no role changes nothing, and to
list `tawa` as a preposition and then as a content word does. -/
theorem Vocabulary.lexicon_agrees_standard :
    (∀ text shown, (⟨standard.lexicon, .strict⟩ : Grammar).parse text shown =
      (⟨Dictionary.standard.lexicon, .strict⟩ : Grammar).parse text shown) ∧
    (∃ d : Dictionary, d.entries = [⟨"pona", 18⟩, ⟨"jan", 2⟩, ⟨"pona", 130⟩] ∧ (∀ w, d.IsUniform w) ∧
      ∀ head tail, (ofDictionary d).lexicon.licenses head tail = d.lexicon.licenses head tail) ∧
    ∃ d : Dictionary, d.entries = [⟨"tawa", 8⟩, ⟨"tawa", 2⟩] ∧ ¬ d.IsUniform "tawa" ∧
      (ofDictionary d).lexicon.classify "tawa" ≠ d.lexicon.classify "tawa" := by
  refine ⟨fun text shown ↦ ?_, ⟨⟨1, _, [⟨"jan", ["pona"]⟩]⟩, rfl, ?_⟩, ⟨⟨1, _, []⟩, rfl, ?_⟩⟩
  · have hnodup : (Dictionary.standard.entries.map Entry.text).Nodup := by decide +kernel
    obtain ⟨hagree, huniform, -⟩ := lexicon_agrees .standard
    exact (hagree (huniform hnodup)).2.2 .strict text shown
  · have huniform := Dictionary.isUniform_of_entries (d := ⟨1, [⟨"pona", 18⟩, ⟨"jan", 2⟩, ⟨"pona", 130⟩], [⟨"jan", ["pona"]⟩]⟩)
      (by decide +kernel)
    exact ⟨huniform, ((lexicon_agrees _).1 huniform).2.1⟩
  · have hnot : ¬ (⟨1, [⟨"tawa", 8⟩, ⟨"tawa", 2⟩], []⟩ : Dictionary).IsUniform "tawa" := by decide +kernel
    exact ⟨hnot, (lexicon_agrees _).2.2 "tawa" hnot⟩

end TokiPona
