import TokiPona.Lexicon
import TokiPona.Dictionary.Standard

namespace TokiPona

structure Vocabulary where
  /-- Each word once. -/
  words : List (String × WordClass)
  compounds : List (List String)
  deriving Repr

namespace Vocabulary

def empty : Vocabulary := ⟨[], []⟩

def addClass (w : String) (c : WordClass) : List (String × WordClass) → List (String × WordClass)
  | [] => [(w, c)]
  | (v, d) :: rest => if v = w then (v, d ||| c) :: rest else (v, d) :: addClass w c rest

theorem lookup_addClass_self (w : String) (c : WordClass) (words : List (String × WordClass)) :
    (addClass w c words).lookup w = some ((words.lookup w).elim c (· ||| c)) := by
  induction words with
  | nil => simp [addClass]
  | cons entry rest ih =>
    obtain ⟨v, d⟩ := entry
    by_cases h : v = w
    · simp [addClass, h]
    · have hw : (w == v) = false := beq_false_of_ne (Ne.symm h)
      simp [addClass, List.lookup_cons, h, hw, ih]

theorem lookup_addClass_of_ne {w v : String} (h : v ≠ w) (c : WordClass) (words : List (String × WordClass)) :
    (addClass w c words).lookup v = words.lookup v := by
  have hv : (v == w) = false := beq_false_of_ne h
  induction words with
  | nil => simp [addClass, List.lookup_cons, hv]
  | cons entry rest ih =>
    obtain ⟨u, d⟩ := entry
    by_cases hu : u = w
    · simp [addClass, List.lookup_cons, hu, hv]
    · simp [addClass, List.lookup_cons, hu, ih]

def insert (v : Vocabulary) (w : String) (c : WordClass) : Vocabulary :=
  { v with words := addClass w c v.words }

def insertCompound (v : Vocabulary) (words : List String) : Vocabulary :=
  { v with compounds := v.compounds.insert words }

def size (v : Vocabulary) : Nat := v.words.length

def ofDictionary (d : Dictionary) : Vocabulary :=
  let listed := d.entries.foldl (fun v entry ↦ v.insert entry.text entry.wordClass) empty
  d.compounds.foldl (fun v compound ↦ v.insertCompound compound.words) listed

def standard : Vocabulary := ofDictionary .standard

def lexicon (v : Vocabulary) : Lexicon :=
  .ofListing (v.words.lookup ·) (fun head tail ↦ v.compounds.contains (head :: tail))

end Vocabulary

end TokiPona
