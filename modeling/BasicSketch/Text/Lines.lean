set_option autoImplicit false

/-! Physical lines. -/

namespace BasicSketch.Text

def splitLines : List Char → List (List Char)
  | [] => []
  | '\n' :: rest => [] :: splitLines rest
  | '\r' :: '\n' :: rest => [] :: splitLines rest
  | c :: rest =>
    match splitLines rest with
    | [] => [[c]]
    | line :: more => (c :: line) :: more

def lines (s : String) : List String := (splitLines s.toList).map String.ofList

def unlines (ls : List String) : String := String.join (ls.map (· ++ "\n"))

end BasicSketch.Text
