
namespace TokiPona

inductive Outline where
  | atom (text : String)
  | list (items : List Outline)
  | tuple (name : String) (items : List Outline)
  | record (name : String) (fields : List (String × Outline))

namespace Outline

/-- The lines of one item inside a level, with a label before the first and a comma after the last. -/
def item (label : String) (lines : List String) : List String :=
  let lines := match lines with
    | [] => [label]
    | first :: rest => (label ++ first) :: rest
  (lines.dropLast ++ [lines.getLast?.getD "" ++ ","]).map ("    " ++ ·)

mutual

def lines : Outline → List String
  | atom text => [text]
  | list [] => ["[]"]
  | list items => ["["] ++ (itemLines items).flatten ++ ["]"]
  | tuple name items => [name ++ "("] ++ (itemLines items).flatten ++ [")"]
  | record name fields => [name ++ " \x7b"] ++ (fieldLines fields).flatten ++ ["\x7d"]

def itemLines : List Outline → List (List String)
  | [] => []
  | o :: rest => item "" o.lines :: itemLines rest

def fieldLines : List (String × Outline) → List (List String)
  | [] => []
  | (name, o) :: rest => item (name ++ ": ") o.lines :: fieldLines rest

end

def text (o : Outline) : String := "\n".intercalate o.lines

def ofOption {α : Type} (f : α → Outline) : Option α → Outline
  | some a => tuple "Some" [f a]
  | none => atom "None"

def ofBool (b : Bool) : Outline := atom (if b then "true" else "false")

end Outline

end TokiPona
