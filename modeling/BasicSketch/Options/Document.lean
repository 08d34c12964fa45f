import BasicSketch.Options
import BasicSketch.Text.Decimal
import BasicSketch.Toml.Lexeme

set_option autoImplicit false

/-! Options files in TOML. -/

namespace BasicSketch

namespace Toml

inductive Value where
  | number (n : Nat)
  | strings (items : List String)
  deriving DecidableEq, Repr

def groupedDigits? (isDigit : Char → Bool) : List Char → Option (List Char)
  | [] => none
  | [c] => if isDigit c then some [c] else none
  | c :: '_' :: rest =>
    if isDigit c then (groupedDigits? isDigit rest).map (c :: ·) else none
  | c :: rest => if isDigit c then (groupedDigits? isDigit rest).map (c :: ·) else none

def isOctalDigit (c : Char) : Bool := '0' ≤ c && c ≤ '7'

def isBinaryDigit (c : Char) : Bool := c == '0' || c == '1'

def decimal? : List Char → Option Nat
  | ['0'] => some 0
  | '0' :: _ => none
  | cs => (groupedDigits? Char.isDigit cs).map (digitsValue 10)

/-- A number of 32 bits; only zero may have a minus sign. -/
def number? (cs : List Char) : Option Nat :=
  let value := match cs with
    | '0' :: 'x' :: ds => (groupedDigits? isHexDigit ds).map (digitsValue 16)
    | '0' :: 'o' :: ds => (groupedDigits? isOctalDigit ds).map (digitsValue 8)
    | '0' :: 'b' :: ds => (groupedDigits? isBinaryDigit ds).map (digitsValue 2)
    | '+' :: ds => decimal? ds
    | '-' :: ds => (decimal? ds).filter (· == 0)
    | ds => decimal? ds
  value.filter (· ≤ Text.maxWord)

inductive Place where
  | lineStart
  | afterKey (key : String)
  | beforeValue (key : String)
  | beforeItem (key : String) (items : List String)
  | afterItem (key : String) (items : List String)
  | afterValue
  deriving DecidableEq, Repr

structure Document where
  place : Place
  settings : List (String × Value)
  deriving DecidableEq, Repr

namespace Document

def set? (d : Document) (key : String) (value : Value) : Option Document :=
  if d.settings.any (·.1 == key) then none
  else some ⟨.afterValue, d.settings ++ [(key, value)]⟩

def step (d : Document) (lexeme : Lexeme) : Option Document :=
  match d.place, lexeme with
  | .lineStart, .lineBreak => some d
  | .lineStart, .word cs =>
    if cs.contains '+' then none else some { d with place := .afterKey (String.ofList cs) }
  | .lineStart, .text cs false => some { d with place := .afterKey (String.ofList cs) }
  | .afterKey key, .equals => some { d with place := .beforeValue key }
  | .beforeValue key, .word cs => (number? cs).bind fun n => d.set? key (.number n)
  | .beforeValue key, .openBracket => some { d with place := .beforeItem key [] }
  | .beforeItem _ _, .lineBreak => some d
  | .beforeItem key items, .text cs _ =>
    some { d with place := .afterItem key (items ++ [String.ofList cs]) }
  | .beforeItem key items, .closeBracket => d.set? key (.strings items)
  | .afterItem _ _, .lineBreak => some d
  | .afterItem key items, .comma => some { d with place := .beforeItem key items }
  | .afterItem key items, .closeBracket => d.set? key (.strings items)
  | .afterValue, .lineBreak => some { d with place := .lineStart }
  | _, _ => none

def settings? (lexemes : List Lexeme) : Option (List (String × Value)) := do
  let d ← lexemes.foldlM step ⟨.lineStart, []⟩
  if d.place == .lineStart || d.place == .afterValue then some d.settings else none

end Document

end Toml

namespace Options

def set? (o : Options) : String × Toml.Value → Option Options
  | ("call_names", .strings names) => some { o with callNames := names }
  | ("pointer_types", .strings names) => some { o with pointerTypes := names }
  | ("value_types", .strings names) => some { o with valueTypes := names }
  | ("startup_delay_ms", .number n) => some { o with startupDelay := n }
  | ("serial_buffer_size", .number n) => some { o with serialBuffer := n }
  | _ => none

def ofToml? (text : String) : Option Options := do
  let lexemes ← Toml.Lexeme.ofText? text
  let settings ← Toml.Document.settings? lexemes
  settings.foldlM set? standard

end Options

end BasicSketch
