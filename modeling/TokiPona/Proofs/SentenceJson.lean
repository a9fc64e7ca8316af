import Mathlib.Data.List.Forall2
import Mathlib.Data.Option.Basic
import TokiPona.Sentence.Json

namespace TokiPona

namespace Json

/-- The same value: arrays item by item, and objects field by field in whatever order. -/
inductive Same : Json → Json → Prop
  | refl (j : Json) : Same j j
  | array {items items' : List Json} : List.Forall₂ Same items items' → Same (array items) (array items')
  | object {fields fields' : List (String × Json)} :
      (∀ name, Option.Rel Same (fields.lookup name) (fields'.lookup name)) → Same (object fields) (object fields')

variable {α : Type} {f : α → Json} {j : Json}

theorem Same.eq_string {s : String} (h : j.Same (.string s)) : j = .string s := by
  cases h
  rfl

theorem Same.eq_bool {b : Bool} (h : j.Same (.bool b)) : j = .bool b := by
  cases h
  rfl

theorem Same.eq_null (h : j.Same .null) : j = .null := by
  cases h
  rfl

theorem Same.exists_items {items : List Json} (h : j.Same (.array items)) :
    ∃ items', j = .array items' ∧ List.Forall₂ Same items' items := by
  cases h with
  | refl => exact ⟨items, rfl, List.forall₂_same.2 (fun item _ ↦ .refl item)⟩
  | array h => exact ⟨_, rfl, h⟩

theorem Same.exists_fields {fields : List (String × Json)} (h : j.Same (.object fields)) :
    ∃ fields', j = .object fields' ∧ ∀ name, Option.Rel Same (fields'.lookup name) (fields.lookup name) := by
  cases h with
  | refl =>
    refine ⟨fields, rfl, fun name ↦ ?_⟩
    cases fields.lookup name with
    | none => exact .none
    | some k => exact .some (.refl k)
  | object h => exact ⟨_, rfl, h⟩

theorem Same.isSome_lookup {fields fields' : List (String × Json)} (h : j.Same (.object fields))
    (h' : j.Same (.object fields')) (name : String) :
    (fields.lookup name).isSome = (fields'.lookup name).isSome := by
  obtain ⟨found, rfl, hfound⟩ := h.exists_fields
  obtain ⟨_, heq, hfound'⟩ := h'.exists_fields
  obtain rfl := Json.object.inj heq
  have hsome {o o' : Option Json} (hrel : Option.Rel Same o o') : o.isSome = o'.isSome := by
    cases hrel <;> rfl
  exact (hsome (hfound name)).symm.trans (hsome (hfound' name))

/-- The JSON of `a` is that of no other value. -/
def Determines (f : α → Json) (a : α) : Prop := ∀ j b, Same j (f a) → Same j (f b) → a = b

theorem Same.field_eq {fields fields' : List (String × Json)} (h : j.Same (.object fields))
    (h' : j.Same (.object fields')) (name : String) {a b : α} (ha : Determines f a)
    (hfield : fields.lookup name = some (f a)) (hfield' : fields'.lookup name = some (f b)) : a = b := by
  obtain ⟨found, rfl, hfound⟩ := h.exists_fields
  obtain ⟨_, heq, hfound'⟩ := h'.exists_fields
  obtain rfl := Json.object.inj heq
  have hname := hfound name
  have hname' := hfound' name
  rw [hfield] at hname
  rw [hfield'] at hname'
  cases hk : found.lookup name with
  | none =>
    rw [hk] at hname
    cases hname
  | some k =>
    rw [hk] at hname hname'
    cases hname with
    | some hsame =>
      cases hname' with
      | some hsame' => exact ha k b hsame hsame'

theorem determines_string (s : String) : Determines .string s := fun _ _ h h' ↦
  Json.string.inj (h.eq_string.symm.trans h'.eq_string)

theorem determines_bool (b : Bool) : Determines .bool b :=
  fun _ _ h h' ↦ Json.bool.inj (h.eq_bool.symm.trans h'.eq_bool)

theorem determines_name {name : α → String} (h : Function.Injective name) (a : α) : Determines (.string ∘ name) a :=
  fun j b ha hb ↦ h (determines_string (name a) j (name b) ha hb)

theorem determines_array {as : List α} (h : ∀ a ∈ as, Determines f a) :
    Determines (fun as ↦ .array (as.map f)) as := by
  intro j bs hj hj'
  obtain ⟨items, rfl, hitems⟩ := hj.exists_items
  obtain ⟨_, heq, hitems'⟩ := hj'.exists_items
  obtain rfl := Json.array.inj heq
  clear hj hj' heq
  induction as generalizing items bs with
  | nil =>
    cases hitems
    cases bs with
    | nil => rfl
    | cons b bs => cases hitems'
  | cons a as ih =>
    cases hitems with
    | cons hitem hitems =>
      cases bs with
      | nil => cases hitems'
      | cons b bs =>
        cases hitems' with
        | cons hitem' hitems' =>
          rw [h a (by simp) _ b hitem hitem', ih (fun a ha ↦ h a (by simp [ha])) bs _ hitems hitems']

theorem determines_ofOption {o : Option α} (h : ∀ a ∈ o, Determines f a) (hnull : ∀ a, ¬ Same .null (f a)) :
    Determines (.ofOption f) o := by
  intro j o' hj hj'
  cases o with
  | none =>
    obtain rfl := hj.eq_null
    cases o' with
    | none => rfl
    | some b => exact absurd hj' (hnull b)
  | some a =>
    cases o' with
    | none =>
      obtain rfl := hj'.eq_null
      exact absurd hj (hnull a)
    | some b => rw [h a rfl j b hj hj']

end Json

open Json

theorem Lexeme.determines_toJson : ∀ l : Lexeme, Determines toJson l
  | word w, j, word w', h, h' => congrArg word (determines_string w j w' h h')
  | word w, j, compound head tail, h, h' => by
    obtain rfl := h.eq_string
    cases h'
  | compound head tail, j, word w, h, h' => by
    obtain rfl := h'.eq_string
    cases h
  | compound head tail, j, compound head' tail', h, h' => by
    rw [h.field_eq h' "head" (determines_string head) rfl rfl,
      h.field_eq h' "tail" (determines_array (fun w _ ↦ determines_string w)) rfl rfl]

theorem Lexeme.null_not_same (l : Lexeme) : ¬ Same .null l.toJson := by
  cases l <;> nofun

theorem Lexeme.determines_array (ls : List Lexeme) : Determines (fun ls ↦ .array (ls.map toJson)) ls :=
  Json.determines_array (fun l _ ↦ l.determines_toJson)

theorem Particle.determines_toJson (p : Particle) : Determines toJson p :=
  determines_name (fun p q h ↦ by simpa using congrArg ofWord? h) p

theorem Punctuation.determines_toJson (p : Punctuation) : Determines toJson p :=
  determines_name (fun p q h ↦ by cases p <;> cases q <;> simp_all [name]) p

theorem Mood.determines_name (m : Mood) : Determines (.string ∘ name) m :=
  Json.determines_name (fun m m' h ↦ by cases m <;> cases m' <;> simp_all [name]) m

theorem Punctuation.determines_ofOption (p : Option Punctuation) : Determines (.ofOption toJson) p :=
  Json.determines_ofOption (fun p _ ↦ p.determines_toJson) nofun

theorem Phrase.toJsons_eq_map (phrases : List Phrase) : Phrase.toJsons phrases = phrases.map Phrase.toJson := by
  induction phrases with
  | nil => rfl
  | cons p phrases ih => rw [Phrase.toJsons, ih, List.map_cons]

theorem PrepPhrase.toJsons_eq_map (phrases : List PrepPhrase) : toJsons phrases = phrases.map toJson := by
  induction phrases with
  | nil => rfl
  | cons p phrases ih => rw [toJsons, ih, List.map_cons]

theorem Chain.toJsons_eq_map (chains : List Chain) : toJsons chains = chains.map toJson := by
  induction chains with
  | nil => rfl
  | cons c chains ih => rw [toJsons, ih, List.map_cons]

theorem Chain.null_not_same (c : Chain) : ¬ Same .null c.toJson := by
  cases c <;> rw [Chain.toJson] <;> nofun

theorem PrepPhrase.toJson_eq (p : PrepPhrase) : p.toJson =
    .object [("preposition", .string p.preposition), ("complement", .ofOption Chain.toJson p.complement)] := by
  obtain ⟨preposition, _ | c⟩ := p <;> rw [PrepPhrase.toJson] <;> rfl

mutual

theorem Phrase.determines_toJson : ∀ p : Phrase, Determines Phrase.toJson p
  | ⟨head, modifiers, prepositions⟩ => by
    rintro j ⟨head', modifiers', prepositions'⟩ h h'
    rw [Phrase.toJson, PrepPhrase.toJsons_eq_map] at h h'
    rw [h.field_eq h' "head" head.determines_toJson rfl rfl,
      h.field_eq h' "modifiers" (Lexeme.determines_array modifiers) rfl rfl,
      h.field_eq h' "prepositions" (determines_array (PrepPhrase.determines_toJsons prepositions)) rfl rfl]

theorem PrepPhrase.determines_toJson : ∀ p : PrepPhrase, Determines PrepPhrase.toJson p
  | ⟨preposition, complement⟩ => by
    rintro j ⟨preposition', complement'⟩ h h'
    rw [PrepPhrase.toJson_eq] at h h'
    rw [h.field_eq h' "preposition" (determines_string preposition) rfl rfl,
      h.field_eq h' "complement" (Chain.determines_option complement) rfl rfl]

theorem Chain.determines_toJson : ∀ c : Chain, Determines Chain.toJson c
  | .phrases p phrases => by
    rintro j (⟨p', phrases'⟩ | ⟨p', links'⟩) h h'
    · rw [Chain.toJson, Phrase.toJsons_eq_map] at h h'
      rw [h.field_eq h' "particle" p.determines_toJson rfl rfl,
        h.field_eq h' "phrases" (determines_array (Phrase.determines_toJsons phrases)) rfl rfl]
    · simp only [Chain.toJson] at h h'
      exact absurd (h.isSome_lookup h' "links") (by simp [List.lookup_cons])
  | .links p links => by
    rintro j (⟨p', phrases'⟩ | ⟨p', links'⟩) h h'
    · simp only [Chain.toJson] at h h'
      exact absurd (h.isSome_lookup h' "links") (by simp [List.lookup_cons])
    · rw [Chain.toJson, Chain.toJsons_eq_map] at h h'
      rw [h.field_eq h' "particle" p.determines_toJson rfl rfl,
        h.field_eq h' "links" (determines_array (Chain.determines_toJsons links)) rfl rfl]

theorem Chain.determines_option : ∀ c : Option Chain, Determines (.ofOption Chain.toJson) c
  | none => determines_ofOption nofun Chain.null_not_same
  | some c => determines_ofOption (fun _ hc ↦ Option.mem_some_iff.1 hc ▸ Chain.determines_toJson c) Chain.null_not_same

theorem Phrase.determines_toJsons : ∀ phrases : List Phrase, ∀ p ∈ phrases, Determines Phrase.toJson p
  | [] => nofun
  | p :: phrases => List.forall_mem_cons.2 ⟨Phrase.determines_toJson p, Phrase.determines_toJsons phrases⟩

theorem PrepPhrase.determines_toJsons : ∀ phrases : List PrepPhrase, ∀ p ∈ phrases, Determines PrepPhrase.toJson p
  | [] => nofun
  | p :: phrases => List.forall_mem_cons.2 ⟨PrepPhrase.determines_toJson p, PrepPhrase.determines_toJsons phrases⟩

theorem Chain.determines_toJsons : ∀ chains : List Chain, ∀ c ∈ chains, Determines Chain.toJson c
  | [] => nofun
  | c :: chains => List.forall_mem_cons.2 ⟨Chain.determines_toJson c, Chain.determines_toJsons chains⟩

end

theorem PrepPhrase.determines_array (phrases : List PrepPhrase) :
    Determines (fun phrases ↦ .array (phrases.map PrepPhrase.toJson)) phrases :=
  Json.determines_array (PrepPhrase.determines_toJsons phrases)

theorem VerbPhrase.determines_toJson (v : VerbPhrase) : Determines toJson v := by
  intro j v' h h'
  have hmodals := h.field_eq h' "modals" (Lexeme.determines_array v.modals) rfl rfl
  have hhead :=
    h.field_eq h' "head" (Json.determines_ofOption (fun l _ ↦ l.determines_toJson) Lexeme.null_not_same) rfl rfl
  have hadverbs := h.field_eq h' "adverbs" (Lexeme.determines_array v.adverbs) rfl rfl
  cases v
  cases v'
  simp_all

def PredicateKind.tag : PredicateKind → String
  | verb _ => "verb"
  | nominal _ => "nominal"
  | pi _ => "pi"

theorem PredicateKind.determines_toJson (kind : PredicateKind) : Determines toJson kind := by
  intro j kind' h h'
  have htag : kind.tag = kind'.tag := by
    cases kind <;> cases kind' <;> exact h.field_eq h' "kind" (determines_string _) rfl rfl
  cases kind <;> cases kind' <;> simp only [tag, String.reduceEq] at htag
  case verb v v' => rw [h.field_eq h' "body" v.determines_toJson rfl rfl]
  case nominal c c' => rw [h.field_eq h' "body" c.determines_toJson rfl rfl]
  case pi c c' => rw [h.field_eq h' "body" c.determines_toJson rfl rfl]

theorem Predicate.determines_toJson (p : Predicate) : Determines toJson p := by
  intro j p' h h'
  have hparticle := h.field_eq h' "particle" p.particle.determines_toJson rfl rfl
  have hkind := h.field_eq h' "kind" p.kind.determines_toJson rfl rfl
  have hobjects := h.field_eq h' "direct_objects" (Chain.determines_option p.objects) rfl rfl
  have hprepositions := h.field_eq h' "prepositions" (PrepPhrase.determines_array p.prepositions) rfl rfl
  cases p
  cases p'
  simp_all

theorem Context.determines_toJson : ∀ c : Context, Determines toJson c
  | chain c, j, chain c', h, h' => congrArg chain (c.determines_toJson j c' h h')
  | chain c, j, prepositional phrases, h, h' => by
    obtain ⟨items, rfl, -⟩ := h'.exists_items
    cases c <;> simp only [toJson, Chain.toJson] at h <;> cases h
  | prepositional phrases, j, chain c, h, h' => by
    obtain ⟨items, rfl, -⟩ := h.exists_items
    cases c <;> simp only [toJson, Chain.toJson] at h' <;> cases h'
  | prepositional phrases, j, prepositional phrases', h, h' =>
    congrArg prepositional (PrepPhrase.determines_array phrases j phrases' h h')

theorem SimpleSentence.determines_toJson (s : SimpleSentence) :
    Determines (fun s ↦ Sentence.toJson (.simple s)) s := by
  intro j s' h h'
  simp only [Sentence.toJson] at h h'
  have hsubject := h.field_eq h' "subject" (Chain.determines_option s.subject) rfl rfl
  have hpredicates := h.field_eq h' "predicates" (determines_array (fun p _ ↦ Predicate.determines_toJson p)) rfl rfl
  have hpunctuation := h.field_eq h' "punctuation" (Punctuation.determines_ofOption s.punctuation) rfl rfl
  have hconjunction :=
    h.field_eq h' "conjunction" (determines_ofOption (fun p _ ↦ Particle.determines_toJson p) nofun) rfl rfl
  have hvocatives := h.field_eq h' "head_vocatives" (determines_array (Chain.determines_toJsons s.vocatives)) rfl rfl
  have htag := h.field_eq h' "tag_question" (determines_bool s.tagQuestion) rfl rfl
  have hmood := h.field_eq h' "mood" s.mood.determines_name rfl rfl
  have hplaceholder := h.field_eq h' "placeholder_subject" (determines_bool s.placeholder) rfl rfl
  have hcontexts := h.field_eq h' "la_fragments" (determines_array (fun c _ ↦ Context.determines_toJson c)) rfl rfl
  cases s
  cases s'
  simp_all

namespace Sentence

theorem toJsons_eq_map (ss : List Sentence) : toJsons ss = ss.map toJson := by
  induction ss with
  | nil => rfl
  | cons s ss ih => rw [toJsons, ih, List.map_cons]

def tag : Sentence → String
  | simple _ => "simple"
  | conditional _ _ => "conditional"
  | vocative _ _ => "vocative"
  | fragment _ _ => "fragment"
  | exclamation _ _ => "exclamation"
  | comment _ => "comment"

theorem exists_toJson (s : Sentence) : ∃ fields, s.toJson = .object (("type", .string s.tag) :: fields) := by
  cases s <;> exact ⟨_, by rw [toJson]; rfl⟩

theorem tag_eq {j : Json} {s s' : Sentence} (h : j.Same s.toJson) (h' : j.Same s'.toJson) : s.tag = s'.tag := by
  obtain ⟨fields, hfields⟩ := s.exists_toJson
  obtain ⟨fields', hfields'⟩ := s'.exists_toJson
  rw [hfields] at h
  rw [hfields'] at h'
  exact h.field_eq h' "type" (determines_string s.tag) rfl rfl

mutual

theorem determines_toJson : ∀ s : Sentence, Determines toJson s
  | simple s => by
    intro j s' h h'
    cases s' with
    | simple s' => rw [s.determines_toJson j s' h h']
    | _ => exact absurd (tag_eq h h') (by simp [tag])
  | conditional preconditions conclusion => by
    intro j s' h h'
    cases s' with
    | conditional preconditions' conclusion' =>
      rw [toJson, toJsons_eq_map] at h h'
      rw [h.field_eq h' "preconditions" (determines_array (determines_toJsons preconditions)) rfl rfl,
        h.field_eq h' "conclusion" (determines_toJson conclusion) rfl rfl]
    | _ => exact absurd (tag_eq h h') (by simp [tag])
  | vocative addressee p => by
    intro j s' h h'
    cases s' with
    | vocative addressee' p' =>
      rw [toJson] at h h'
      rw [h.field_eq h' "addressee" addressee.determines_toJson rfl rfl,
        h.field_eq h' "punctuation" (Punctuation.determines_ofOption p) rfl rfl]
    | _ => exact absurd (tag_eq h h') (by simp [tag])
  | fragment context p => by
    intro j s' h h'
    cases s' with
    | fragment context' p' =>
      rw [toJson] at h h'
      rw [h.field_eq h' "fragment" context.determines_toJson rfl rfl,
        h.field_eq h' "punctuation" (Punctuation.determines_ofOption p) rfl rfl]
    | _ => exact absurd (tag_eq h h') (by simp [tag])
  | exclamation phrase p => by
    intro j s' h h'
    cases s' with
    | exclamation phrase' p' =>
      rw [toJson] at h h'
      rw [h.field_eq h' "phrase" phrase.determines_toJson rfl rfl,
        h.field_eq h' "punctuation" (Punctuation.determines_ofOption p) rfl rfl]
    | _ => exact absurd (tag_eq h h') (by simp [tag])
  | comment text => by
    intro j s' h h'
    cases s' with
    | comment text' =>
      rw [toJson] at h h'
      rw [h.field_eq h' "text" (determines_string text) rfl rfl]
    | _ => exact absurd (tag_eq h h') (by simp [tag])

theorem determines_toJsons : ∀ ss : List Sentence, ∀ s ∈ ss, Determines toJson s
  | [] => nofun
  | s :: ss => List.forall_mem_cons.2 ⟨determines_toJson s, determines_toJsons ss⟩

end

/-- Sentences with the same JSON are the same, down to the order of modifiers and adverbs; so some decoder takes exactly
the JSON of a sentence, its fields in whatever order, back to that sentence. -/
theorem same_toJson_iff :
    (∀ s s' : Sentence, s.toJson.Same s'.toJson ↔ s = s') ∧
      ∃ decode : Json → Option Sentence, ∀ j s, decode j = some s ↔ j.Same s.toJson := by
  classical
  refine ⟨fun s s' ↦ ⟨fun h ↦ determines_toJson s _ s' (.refl _) h, fun h ↦ h ▸ .refl _⟩, ?_⟩
  refine ⟨fun j ↦ if h : ∃ s : Sentence, j.Same s.toJson then some h.choose else none, fun j s ↦ ?_⟩
  dsimp only
  constructor
  · intro hdecode
    split at hdecode
    case isTrue h => exact Option.some.inj hdecode ▸ h.choose_spec
    case isFalse h => exact absurd hdecode nofun
  · intro hs
    have h : ∃ s : Sentence, j.Same s.toJson := ⟨s, hs⟩
    rw [dif_pos h, determines_toJson s j _ hs h.choose_spec]

end Sentence

end TokiPona
