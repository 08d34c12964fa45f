import BasicSketch.Text.Blank
import BasicSketch.Text.Lines
import BasicSketch.Text.Letters

set_option autoImplicit false

/-! Logical lines. -/

namespace BasicSketch

structure LogicalLine where
  number : Nat
  text : String
  deriving DecidableEq, Repr

namespace LogicalLine

def isRemarkNeighbour (c : Char) : Bool := Text.isNameChar c || c == '$'

def startsRemark : List Char → Bool
  | r :: e :: m :: rest =>
    r.toLower == 'r' && e.toLower == 'e' && m.toLower == 'm' &&
      !(rest.head?.any isRemarkNeighbour)
  | _ => false

/-- The part of a line before its comment, where `quoted` tells whether the characters stand
inside a quoted text and `inWord` whether the character before them is part of a word. -/
def beforeComment (quoted inWord : Bool) : List Char → List Char
  | [] => []
  | c :: rest =>
    if c == '\x22' then c :: beforeComment (!quoted) false rest
    else if !quoted && (c == '\x27' || (!inWord && startsRemark (c :: rest))) then []
    else c :: beforeComment quoted (isRemarkNeighbour c) rest

def stripComment (line : String) : String :=
  String.ofList (beforeComment false false line.toList)

/-- The text before the mark of continuation, if the text ends in one: an underscore that stands
alone or after a space or tab. -/
def continued? (text : String) : Option String :=
  match text.toList.reverse with
  | ['_'] => some ""
  | '_' :: c :: before =>
    if c == ' ' || c == '\t' then some (String.ofList (Text.dropBlanks (c :: before)).reverse)
    else none
  | _ => none

def finish (number : Nat) (text : String) : List LogicalLine :=
  let text := Text.trim text
  if text.isEmpty then [] else [⟨number, text⟩]

abbrev Pending := Option (Nat × String)

def join (number : Nat) (pending : Pending) : List String → List LogicalLine
  | [] =>
    match pending with
    | none => []
    | some (first, head) => finish first head
  | physical :: rest =>
    let code := Text.trim (stripComment physical)
    let (first, text) := match pending with
      | none => (number, code)
      | some (first, head) => (first, head ++ " " ++ code)
    match continued? text with
    | some head => join (number + 1) (some (first, head)) rest
    | none => finish first text ++ join (number + 1) none rest

def ofSource (source : String) : List LogicalLine := join 1 none (Text.lines source)

end LogicalLine

end BasicSketch
