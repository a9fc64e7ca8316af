
namespace TokiPona

variable {α : Type}

def glue (x : α) : List (List α) → List (List α)
  | [] => [[x]]
  | piece :: pieces => (x :: piece) :: pieces

theorem glue_ne_nil (x : α) (pieces : List (List α)) : glue x pieces ≠ [] := by
  cases pieces <;> simp [glue]

@[simp] theorem flatten_glue (x : α) (pieces : List (List α)) : (glue x pieces).flatten = x :: pieces.flatten := by
  cases pieces <;> simp [glue]

/-- Cuts before every separator but a leading one. -/
def splitBefore (isSeparator : α → Bool) : List α → List (List α)
  | [] => []
  | [x] => [[x]]
  | x :: y :: rest =>
    if isSeparator y then [x] :: splitBefore isSeparator (y :: rest)
    else glue x (splitBefore isSeparator (y :: rest))

@[simp] theorem flatten_splitBefore (p : α → Bool) (xs : List α) : (splitBefore p xs).flatten = xs := by
  fun_induction splitBefore p xs with
  | case1 => rfl
  | case2 => rfl
  | case3 x y rest h ih => simp [ih]
  | case4 x y rest h ih => simp [ih]

/-- Cuts at every separator and drops it. Empty pieces are kept. -/
def splitDropping (isSeparator : α → Bool) : List α → List (List α)
  | [] => [[]]
  | x :: rest =>
    if isSeparator x then [] :: splitDropping isSeparator rest
    else glue x (splitDropping isSeparator rest)

theorem splitDropping_ne_nil (p : α → Bool) (xs : List α) : splitDropping p xs ≠ [] := by
  cases xs with
  | nil => simp [splitDropping]
  | cons x rest =>
    rw [splitDropping]
    split
    · simp
    · exact glue_ne_nil x _

@[simp] theorem flatten_splitDropping (p : α → Bool) (xs : List α) :
    (splitDropping p xs).flatten = xs.filter (!p ·) := by
  fun_induction splitDropping p xs with
  | case1 => rfl
  | case2 x rest h ih => simp [ih, h]
  | case3 x rest h ih => simp [ih, h]

/-- The run without the separator that it starts with, if it starts with one. -/
def stripLeading (isSeparator : α → Bool) : List α → List α
  | [] => []
  | x :: rest => if isSeparator x then rest else x :: rest

end TokiPona
