import BasicSketch.Text.Blank
import BasicSketch.Text.Decimal

set_option autoImplicit false

/-! Expressions, kept as the text they are written in. -/

namespace BasicSketch

structure Expr where
  text : String
  deriving DecidableEq, Repr

namespace Expr

def ofText (text : String) : Expr := ⟨Text.trim text⟩

def isEmpty (e : Expr) : Bool := e.text.isEmpty

def integer? (e : Expr) : Option Int :=
  match e.text.toList with
  | '+' :: _ => none
  | _ => Text.readSigned? e.text

def isQuoted (e : Expr) : Bool :=
  match e.text.toList with
  | '\x22' :: rest =>
    match rest.reverse with
    | '\x22' :: inside => !inside.contains '\x22'
    | _ => false
  | _ => false

end Expr

end BasicSketch
