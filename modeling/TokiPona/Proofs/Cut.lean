import TokiPona.Split

namespace TokiPona

variable {α : Type} {p : α → Bool} {xs piece : List α}

def Opens (p : α → Bool) (piece : List α) : Prop :=
  ∃ s body, piece = s :: body ∧ p s = true ∧ ∀ x ∈ body, p x = false

theorem Opens.ne_nil (h : Opens p piece) : piece ≠ [] := by
  obtain ⟨s, body, rfl, -, -⟩ := h
  simp

theorem splitBefore_cons (p : α → Bool) (x : α) (rest : List α) :
    ∃ body pieces, splitBefore p (x :: rest) = (x :: body) :: pieces := by
  cases rest with
  | nil => exact ⟨[], [], rfl⟩
  | cons y rest =>
    rw [splitBefore]
    split
    · exact ⟨[], _, rfl⟩
    · cases splitBefore p (y :: rest) with
      | nil => exact ⟨[], [], rfl⟩
      | cons first pieces => exact ⟨first, pieces, rfl⟩

theorem splitBefore_ne_nil (p : α → Bool) (hne : xs ≠ []) : splitBefore p xs ≠ [] := by
  obtain ⟨x, rest, rfl⟩ := List.exists_cons_of_ne_nil hne
  obtain ⟨body, pieces, hsplit⟩ := splitBefore_cons p x rest
  simp [hsplit]

theorem splitBefore_eq_cons {first : List α} {pieces : List (List α)} (h : splitBefore p xs = first :: pieces) :
    first ≠ [] ∧ (∀ x ∈ first.tail, p x = false) ∧ ∀ piece ∈ pieces, Opens p piece := by
  fun_induction splitBefore p xs generalizing first pieces with
  | case1 => simp at h
  | case2 x =>
    obtain ⟨rfl, rfl⟩ := List.cons.inj h
    simp
  | case3 x y rest hy ih =>
    obtain ⟨rfl, rfl⟩ := List.cons.inj h
    obtain ⟨body, others, hs⟩ := splitBefore_cons p y rest
    obtain ⟨-, htail, hothers⟩ := ih hs
    refine ⟨by simp, by simp, ?_⟩
    rw [hs]
    intro piece hmem
    rcases List.mem_cons.1 hmem with rfl | hmem
    · exact ⟨y, body, rfl, hy, by simpa using htail⟩
    · exact hothers piece hmem
  | case4 x y rest hy ih =>
    obtain ⟨body, others, hs⟩ := splitBefore_cons p y rest
    obtain ⟨-, htail, hothers⟩ := ih hs
    rw [hs] at h
    obtain ⟨rfl, rfl⟩ := List.cons.inj h
    refine ⟨by simp, ?_, hothers⟩
    intro w hw
    rcases List.mem_cons.1 hw with rfl | hw
    · simpa using hy
    · exact htail w hw

theorem not_of_mem_tail_splitBefore {piece : List α} (h : piece ∈ splitBefore p xs) : ∀ x ∈ piece.tail, p x = false := by
  obtain ⟨first, pieces, hsplit⟩ := List.exists_cons_of_ne_nil (List.ne_nil_of_mem h)
  obtain ⟨-, hfirst, hpieces⟩ := splitBefore_eq_cons hsplit
  rw [hsplit] at h
  rcases List.mem_cons.1 h with rfl | h
  · exact hfirst
  · obtain ⟨s, body, rfl, -, hbody⟩ := hpieces piece h
    exact hbody

theorem splitBefore_of_tail (hxs : xs ≠ []) (h : ∀ x ∈ xs.tail, p x = false) : splitBefore p xs = [xs] := by
  fun_induction splitBefore p xs with
  | case1 => exact absurd rfl hxs
  | case2 x => rfl
  | case3 x y rest hy ih => simp [h y (by simp)] at hy
  | case4 x y rest hy ih => simp [ih (by simp) (fun z hz ↦ h z (by simp [List.mem_of_mem_tail hz])), glue]

theorem splitBefore_append_of_opens {first : List α} (hf : first ≠ []) (htail : ∀ x ∈ first.tail, p x = false)
    {s : α} (hs : p s = true) (rest : List α) :
    splitBefore p (first ++ s :: rest) = first :: splitBefore p (s :: rest) := by
  induction first with
  | nil => exact absurd rfl hf
  | cons x first ih =>
    cases first with
    | nil => simp [splitBefore, hs]
    | cons y first =>
      have hy : p y = false := htail y (by simp)
      have ih' := ih (by simp) (fun z hz ↦ htail z (by simpa using Or.inr (by simpa using hz)))
      simp only [List.cons_append] at ih' ⊢
      rw [splitBefore, hy, if_neg (by simp), ih', glue]

theorem splitBefore_append_flatten {first : List α} {pieces : List (List α)} (hf : first ≠ [])
    (htail : ∀ x ∈ first.tail, p x = false) (hpieces : ∀ piece ∈ pieces, Opens p piece) :
    splitBefore p (first ++ pieces.flatten) = first :: pieces := by
  induction pieces generalizing first with
  | nil => simpa using splitBefore_of_tail hf htail
  | cons piece pieces ih =>
    obtain ⟨s, body, rfl, hs, hbody⟩ := hpieces piece (by simp)
    have ih' : splitBefore p ((s :: body) ++ pieces.flatten) = (s :: body) :: pieces :=
      ih (by simp) (by simpa using hbody) (fun q hq ↦ hpieces q (by simp [hq]))
    simpa [splitBefore_append_of_opens hf htail hs] using ih'

theorem not_sep_of_mem_splitDropping (h : piece ∈ splitDropping p xs) : ∀ x ∈ piece, p x = false := by
  fun_induction splitDropping p xs generalizing piece with
  | case1 => simp_all
  | case2 x rest hx ih =>
    rcases List.mem_cons.1 h with rfl | h
    · simp
    · exact ih h
  | case3 x rest hx ih =>
    cases hs : splitDropping p rest with
    | nil => exact absurd hs (splitDropping_ne_nil p rest)
    | cons first others =>
      rw [hs] at h ih
      rcases List.mem_cons.1 h with rfl | h
      · intro y hy
        rcases List.mem_cons.1 hy with rfl | hy
        · simpa using hx
        · exact ih (by simp) y hy
      · exact ih (by simp [h])

theorem mem_of_mem_splitDropping (h : piece ∈ splitDropping p xs) : ∀ x ∈ piece, x ∈ xs := by
  intro x hx
  have hflat : x ∈ (splitDropping p xs).flatten := List.mem_flatten.2 ⟨piece, h, hx⟩
  rw [flatten_splitDropping] at hflat
  exact (List.mem_filter.1 hflat).1

theorem mem_of_mem_splitBefore (h : piece ∈ splitBefore p xs) : ∀ x ∈ piece, x ∈ xs := by
  intro x hx
  have hflat : x ∈ (splitBefore p xs).flatten := List.mem_flatten.2 ⟨piece, h, hx⟩
  rwa [flatten_splitBefore] at hflat

theorem mem_of_mem_stripLeading {x : α} (h : x ∈ stripLeading p xs) : x ∈ xs := by
  cases xs with
  | nil => exact h
  | cons y rest =>
    rw [stripLeading] at h
    split at h
    · exact List.mem_cons_of_mem y h
    · exact h

theorem splitDropping_of_forall (h : ∀ x ∈ xs, p x = false) : splitDropping p xs = [xs] := by
  induction xs with
  | nil => rfl
  | cons x xs ih =>
    rw [splitDropping, h x (by simp), if_neg (by simp), ih (fun y hy ↦ h y (by simp [hy])), glue]

theorem splitDropping_cons {x : α} (hx : p x = false) (rest : List α) :
    ∃ piece pieces, splitDropping p (x :: rest) = (x :: piece) :: pieces := by
  rw [splitDropping, if_neg (by simp [hx])]
  cases splitDropping p rest with
  | nil => exact ⟨[], [], rfl⟩
  | cons piece pieces => exact ⟨piece, pieces, rfl⟩

theorem splitDropping_of_not {x : α} {rest first : List α} {others : List (List α)} (hx : p x = false)
    (h : splitDropping p rest = first :: others) : splitDropping p (x :: rest) = (x :: first) :: others := by
  rw [splitDropping, if_neg (by simp [hx]), h, glue]

theorem splitDropping_congr {q : α → Bool} (h : ∀ x ∈ xs, p x = q x) : splitDropping p xs = splitDropping q xs := by
  induction xs with
  | nil => rfl
  | cons x xs ih => rw [splitDropping, splitDropping, h x (by simp), ih (fun y hy ↦ h y (by simp [hy]))]

theorem splitDropping_map {β : Type} (f : β → α) (ys : List β) :
    splitDropping p (ys.map f) = (splitDropping (fun y ↦ p (f y)) ys).map (List.map f) := by
  induction ys with
  | nil => rfl
  | cons y ys ih =>
    obtain ⟨first, rest, hfirst⟩ := List.exists_cons_of_ne_nil (splitDropping_ne_nil (fun y ↦ p (f y)) ys)
    rw [List.map_cons, splitDropping, splitDropping, ih, hfirst]
    cases p (f y) <;> simp [glue]

theorem stripLeading_map {β : Type} (f : β → α) (ys : List β) :
    stripLeading p (ys.map f) = (stripLeading (fun y ↦ p (f y)) ys).map f := by
  cases ys with
  | nil => rfl
  | cons y ys =>
    rw [stripLeading, apply_ite (List.map f)]
    rfl

theorem splitDropping_append_sep {s : α} (hs : p s = true) (hpiece : ∀ x ∈ piece, p x = false) (rest : List α) :
    splitDropping p (piece ++ s :: rest) = piece :: splitDropping p rest := by
  induction piece with
  | nil => simp [splitDropping, hs]
  | cons x piece ih =>
    rw [List.cons_append, splitDropping, hpiece x (by simp), if_neg (by simp),
      ih (fun y hy ↦ hpiece y (by simp [hy])), glue]

/-- A run has no separator, or is a piece without one, then a separator, then a run. -/
theorem cut_induction (p : α → Bool) {motive : List α → Prop} (plain : ∀ xs, (∀ x ∈ xs, p x = false) → motive xs)
    (cut : ∀ piece s rest, (∀ x ∈ piece, p x = false) → p s = true → motive rest → motive (piece ++ s :: rest))
    (xs : List α) : motive xs := by
  induction hn : xs.length using Nat.strongRecOn generalizing xs with
  | _ n ih =>
    have hsplit := List.takeWhile_append_dropWhile (p := (!p ·)) (l := xs)
    have htake : ∀ x ∈ xs.takeWhile (!p ·), p x = false := by
      intro x hx
      simpa using List.all_eq_true.1 List.all_takeWhile x hx
    cases hdrop : xs.dropWhile (!p ·) with
    | nil =>
      rw [hdrop, List.append_nil] at hsplit
      exact hsplit ▸ plain _ htake
    | cons s rest =>
      have hs : p s = true := by
        have hhead := List.head_dropWhile_not (!p ·) (l := xs) (by simp [hdrop])
        simpa [hdrop] using hhead
      rw [hdrop] at hsplit
      rw [← hsplit]
      refine cut _ s rest htake hs (ih rest.length ?_ rest rfl)
      have hlength := congrArg List.length hsplit
      simp only [List.length_append, List.length_cons] at hlength
      omega

theorem flatMap_splitDropping (p q : α → Bool) (xs : List α) :
    (splitDropping p xs).flatMap (splitDropping q) = splitDropping (fun x ↦ p x || q x) xs := by
  induction xs with
  | nil => rfl
  | cons x xs ih =>
    obtain ⟨first, others, hfirst⟩ := List.exists_cons_of_ne_nil (splitDropping_ne_nil p xs)
    rw [hfirst, List.flatMap_cons] at ih
    rw [splitDropping, splitDropping, hfirst]
    cases hp : p x with
    | true => simpa [splitDropping] using ih
    | false =>
      rw [if_neg (by simp), glue, List.flatMap_cons, splitDropping]
      cases hq : q x with
      | true => simpa using ih
      | false =>
        obtain ⟨part, parts, hpart⟩ := List.exists_cons_of_ne_nil (splitDropping_ne_nil q first)
        rw [hpart] at ih ⊢
        simp [glue, ← ih]

theorem mem_splitDropping_comm {q : α → Bool} {run : List α} (hpiece : piece ∈ splitDropping p xs)
    (hrun : run ∈ splitDropping q piece) : ∃ piece' ∈ splitDropping q xs, run ∈ splitDropping p piece' := by
  have hmem : run ∈ (splitDropping p xs).flatMap (splitDropping q) := List.mem_flatMap.2 ⟨piece, hpiece, hrun⟩
  have hcomm : (fun x ↦ p x || q x) = fun x ↦ q x || p x := funext fun x ↦ Bool.or_comm (p x) (q x)
  rw [flatMap_splitDropping, hcomm, ← flatMap_splitDropping] at hmem
  exact List.mem_flatMap.1 hmem

theorem two_le_length_splitDropping : 2 ≤ (splitDropping p xs).length ↔ ∃ x ∈ xs, p x = true := by
  induction xs with
  | nil => simp [splitDropping]
  | cons x xs ih =>
    obtain ⟨first, others, hfirst⟩ := List.exists_cons_of_ne_nil (splitDropping_ne_nil p xs)
    rw [hfirst] at ih
    rw [splitDropping, hfirst]
    cases hx : p x with
    | true => simp [hx]
    | false => simpa [glue, hx] using ih

theorem splitDropping_append {xs ys : List α} {init others : List (List α)} {last first : List α}
    (hxs : splitDropping p xs = init ++ [last]) (hys : splitDropping p ys = first :: others) :
    splitDropping p (xs ++ ys) = init ++ (last ++ first) :: others := by
  induction xs generalizing init last with
  | nil =>
    obtain ⟨rfl, rfl⟩ : init = [] ∧ last = [] := by
      cases init <;> simp_all [splitDropping]
    simpa using hys
  | cons x xs ih =>
    obtain ⟨init', last', h⟩ : ∃ init' last', splitDropping p xs = init' ++ [last'] :=
      ⟨_, _, (List.dropLast_concat_getLast (splitDropping_ne_nil p xs)).symm⟩
    have ih' := ih h
    rw [splitDropping, h] at hxs
    rw [List.cons_append, splitDropping, ih']
    cases hx : p x with
    | true =>
      rw [hx, if_pos rfl, ← List.cons_append] at hxs
      obtain ⟨rfl, hlast⟩ := List.append_inj' hxs rfl
      obtain rfl := List.singleton_inj.1 hlast
      simp
    | false =>
      rw [hx, if_neg (by simp)] at hxs
      cases init' with
      | nil =>
        have hinit : [] ++ [x :: last'] = init ++ [last] := hxs
        obtain ⟨rfl, hlast⟩ := List.append_inj' hinit rfl
        obtain rfl := List.singleton_inj.1 hlast
        simp [glue]
      | cons piece init' =>
        have hinit : ((x :: piece) :: init') ++ [last'] = init ++ [last] := hxs
        obtain ⟨rfl, hlast⟩ := List.append_inj' hinit rfl
        obtain rfl := List.singleton_inj.1 hlast
        simp [glue]

theorem splitDropping_eq_append {init others : List (List α)} {front back : List α}
    (h : splitDropping p xs = init ++ (front ++ back) :: others) :
    ∃ ys zs, xs = ys ++ zs ∧ splitDropping p ys = init ++ [front] ∧ splitDropping p zs = back :: others := by
  induction xs generalizing init front with
  | nil =>
    obtain ⟨rfl, hpiece, rfl⟩ : init = [] ∧ front ++ back = [] ∧ others = [] := by
      cases init <;> simp_all [splitDropping]
    obtain ⟨rfl, rfl⟩ := List.append_eq_nil_iff.1 hpiece
    exact ⟨[], [], rfl, rfl, rfl⟩
  | cons x xs ih =>
    obtain ⟨first, rest, hfirst⟩ := List.exists_cons_of_ne_nil (splitDropping_ne_nil p xs)
    cases hx : p x with
    | true =>
      have hcons (ys : List α) : splitDropping p (x :: ys) = [] :: splitDropping p ys := by rw [splitDropping, if_pos hx]
      rw [hcons] at h
      cases init with
      | nil =>
        obtain ⟨hpiece, rfl⟩ := List.cons.inj h
        obtain ⟨rfl, rfl⟩ := List.append_eq_nil_iff.1 hpiece.symm
        exact ⟨[], x :: xs, rfl, rfl, hcons xs⟩
      | cons piece init =>
        obtain ⟨rfl, hinit⟩ := List.cons.inj h
        obtain ⟨ys, zs, rfl, hys, hzs⟩ := ih hinit
        exact ⟨x :: ys, zs, rfl, by rw [hcons, hys]; rfl, hzs⟩
    | false =>
      have hcons (ys : List α) : splitDropping p (x :: ys) = glue x (splitDropping p ys) := by
        rw [splitDropping, if_neg (by simp [hx])]
      rw [hcons, hfirst] at h
      cases init with
      | cons piece init =>
        obtain ⟨rfl, hinit⟩ := List.cons.inj h
        have hrest : splitDropping p xs = (first :: init) ++ (front ++ back) :: others := by rw [hfirst, hinit]; rfl
        obtain ⟨ys, zs, rfl, hys, hzs⟩ := ih hrest
        exact ⟨x :: ys, zs, rfl, by rw [hcons, hys]; rfl, hzs⟩
      | nil =>
        obtain ⟨hpiece, rfl⟩ := List.cons.inj h
        cases front with
        | nil => exact ⟨[], x :: xs, rfl, rfl, by rw [hcons, hfirst, glue, hpiece]; rfl⟩
        | cons y front =>
          obtain ⟨rfl, hfront⟩ := List.cons.inj hpiece
          have hrest : splitDropping p xs = [] ++ (front ++ back) :: rest := by rw [hfirst, hfront]; rfl
          obtain ⟨ys, zs, rfl, hys, hzs⟩ := ih hrest
          exact ⟨x :: ys, zs, rfl, by rw [hcons, hys]; rfl, hzs⟩

theorem splitDropping_eq_cons {x : α} {piece : List α} {others : List (List α)}
    (h : splitDropping p xs = (x :: piece) :: others) :
    ∃ rest, xs = x :: rest ∧ p x = false ∧ splitDropping p rest = piece :: others := by
  cases xs with
  | nil => simp [splitDropping] at h
  | cons y rest =>
    obtain ⟨first, pieces, hfirst⟩ := List.exists_cons_of_ne_nil (splitDropping_ne_nil p rest)
    rw [splitDropping, hfirst] at h
    cases hy : p y with
    | true => simp [hy] at h
    | false =>
      obtain ⟨⟨rfl, rfl⟩, rfl⟩ : (y = x ∧ first = piece) ∧ pieces = others := by simpa [hy, glue] using h
      exact ⟨rest, rfl, hy, hfirst⟩

theorem splitDropping_append_cons {s : α} (hs : p s = true) (xs ys : List α) :
    splitDropping p (xs ++ s :: ys) = splitDropping p xs ++ splitDropping p ys := by
  obtain ⟨init, last, hinit⟩ : ∃ init last, splitDropping p xs = init ++ [last] :=
    ⟨_, _, (List.dropLast_concat_getLast (splitDropping_ne_nil p xs)).symm⟩
  have hcons : splitDropping p (s :: ys) = [] :: splitDropping p ys := by rw [splitDropping, if_pos hs]
  rw [splitDropping_append hinit hcons, hinit]
  simp

theorem splitDropping_intercalate {s : α} (hs : p s = true) {pieces : List (List α)} (hne : pieces ≠ [])
    (h : ∀ piece ∈ pieces, ∀ x ∈ piece, p x = false) : splitDropping p ([s].intercalate pieces) = pieces := by
  induction pieces with
  | nil => exact absurd rfl hne
  | cons piece pieces ih =>
    have hpiece := h piece (by simp)
    cases pieces with
    | nil => simpa using splitDropping_of_forall hpiece
    | cons second others =>
      have ih' := ih (by simp) (fun q hq ↦ h q (by simp [hq]))
      simp only [List.intercalate_cons_cons, List.append_assoc, List.singleton_append]
      rw [splitDropping_append_sep hs hpiece, ih']

theorem map_stripLeading_splitBefore (p : α → Bool) {xs : List α} (hne : xs ≠ []) :
    (splitBefore p xs).map (stripLeading p) = splitDropping p (stripLeading p xs) := by
  fun_induction splitBefore p xs with
  | case1 => exact absurd rfl hne
  | case2 x => cases hx : p x <;> simp [stripLeading, splitDropping, glue, hx]
  | case3 x y rest hy ih =>
    have ih' := ih (by simp)
    rw [stripLeading, if_pos hy] at ih'
    rw [List.map_cons, ih']
    cases hx : p x <;> simp [stripLeading, splitDropping, glue, hx, hy]
  | case4 x y rest hy ih =>
    have ih' := ih (by simp)
    obtain ⟨body, pieces, hsplit⟩ := splitBefore_cons p y rest
    rw [stripLeading, if_neg hy, hsplit, List.map_cons, stripLeading, if_neg hy] at ih'
    rw [hsplit, glue, List.map_cons]
    cases hx : p x
    · rw [stripLeading, stripLeading, hx, if_neg (by simp), if_neg (by simp), splitDropping, hx, if_neg (by simp), ← ih']
      rfl
    · rw [stripLeading, stripLeading, hx, if_pos rfl, if_pos rfl, ← ih']

theorem intercalate_splitDropping {s : α} (hs : ∀ x, p x = true → x = s) (xs : List α) :
    [s].intercalate (splitDropping p xs) = xs := by
  fun_induction splitDropping p xs with
  | case1 => rfl
  | case2 x rest hx ih =>
    obtain rfl := hs x hx
    rw [List.intercalate_cons_of_ne_nil (splitDropping_ne_nil p rest), ih]
    simp
  | case3 x rest hx ih =>
    cases hr : splitDropping p rest with
    | nil => exact absurd hr (splitDropping_ne_nil p rest)
    | cons first others =>
      rw [hr] at ih
      rw [glue, List.intercalate_cons_cons_left, ih]

theorem intercalate_concat (s : α) {runs : List (List α)} (hne : runs ≠ []) (last : List α) :
    [s].intercalate (runs ++ [last]) = [s].intercalate runs ++ s :: last := by
  induction runs with
  | nil => exact absurd rfl hne
  | cons run runs ih =>
    cases runs with
    | nil => simp
    | cons run' runs =>
      rw [List.cons_append, List.intercalate_cons_of_ne_nil (by simp), ih (by simp),
        List.intercalate_cons_of_ne_nil (l := run) (by simp)]
      simp

theorem intercalate_eq_flatMap (s : α) (runs : List (List α)) (last : List α) :
    [s].intercalate (runs ++ [last]) = runs.flatMap (· ++ [s]) ++ last := by
  induction runs with
  | nil => simp
  | cons run runs ih =>
    rw [List.cons_append, List.intercalate_cons_of_ne_nil (by simp), ih]
    simp

theorem intercalate_ne_nil (s : α) {runs : List (List α)} (hne : runs ≠ []) (h : ∀ run ∈ runs, run ≠ []) :
    [s].intercalate runs ≠ [] := by
  obtain ⟨run, runs, rfl⟩ := List.exists_cons_of_ne_nil hne
  have hrun := h run (by simp)
  cases runs <;> simp [hrun]

theorem head?_intercalate (s : α) {run : List α} (hne : run ≠ []) (runs : List (List α)) :
    ([s].intercalate (run :: runs)).head? = run.head? := by
  obtain ⟨x, rest, rfl⟩ := List.exists_cons_of_ne_nil hne
  rw [List.intercalate_cons_cons_left]
  rfl

theorem infix_intercalate {s : α} {run : List α} {runs : List (List α)} (h : run ∈ runs) :
    run <:+: [s].intercalate runs := by
  induction runs with
  | nil => simp at h
  | cons first runs ih =>
    by_cases hne : runs = []
    · subst hne
      obtain rfl : run = first := by simpa using h
      simp
    · rw [List.intercalate_cons_of_ne_nil hne, List.append_assoc]
      rcases List.mem_cons.1 h with rfl | h
      · exact (List.prefix_append _ _).isInfix
      · refine (ih h).trans (List.IsSuffix.isInfix ?_)
        rw [← List.append_assoc]
        exact List.suffix_append _ _

theorem mem_of_mem_intercalate {s x : α} {runs : List (List α)} (h : x ∈ [s].intercalate runs) :
    x = s ∨ ∃ run ∈ runs, x ∈ run := by
  induction runs with
  | nil => simp at h
  | cons run runs ih =>
    cases runs with
    | nil => exact .inr ⟨run, by simp, by simpa using h⟩
    | cons run' runs =>
      rw [List.intercalate_cons_of_ne_nil (by simp), List.mem_append, List.mem_append, List.mem_singleton] at h
      rcases h with (h | h) | h
      · exact .inr ⟨run, by simp, h⟩
      · exact .inl h
      · rcases ih h with h | ⟨q, hq, h⟩
        · exact .inl h
        · exact .inr ⟨q, by simp [hq], h⟩

theorem mem_of_getLast?_intercalate {s x : α} {runs : List (List α)} (h : ∀ run ∈ runs, run ≠ [])
    (hx : x ∈ ([s].intercalate runs).getLast?) : ∃ run ∈ runs, x ∈ run := by
  induction runs with
  | nil => simp at hx
  | cons run runs ih =>
    cases runs with
    | nil => exact ⟨run, by simp, List.mem_of_getLast? (by simpa using hx)⟩
    | cons run' runs =>
      have hne : [s].intercalate (run' :: runs) ≠ [] := intercalate_ne_nil s (by simp) (fun q hq ↦ h q (by simp [hq]))
      have hlast : ([s].intercalate (run' :: runs)).getLast?.isSome = true := by simpa using hne
      rw [List.intercalate_cons_of_ne_nil (by simp), List.getLast?_append, Option.or_of_isSome hlast] at hx
      obtain ⟨q, hq, hmem⟩ := ih (fun q hq ↦ h q (by simp [hq])) hx
      exact ⟨q, by simp [hq], hmem⟩

theorem intercalate_append_cons (s x : α) (init others : List (List α)) (last first : List α) :
    [s].intercalate (init ++ (last ++ x :: first) :: others) =
      [s].intercalate (init ++ [last]) ++ x :: [s].intercalate (first :: others) := by
  induction init with
  | nil => cases others <;> simp
  | cons piece init ih =>
    have hne : init ++ [last] ≠ [] := by simp
    rw [List.cons_append, List.intercalate_cons_of_ne_nil (by simp), ih, List.cons_append,
      List.intercalate_cons_of_ne_nil hne]
    simp

end TokiPona
