set_option autoImplicit false

namespace BasicSketch

/-- Why a line that starts like a statement does not finish like one. Columns are byte offsets. -/
inductive LineError where
  | unexpected (expected found : String) (column : Nat)
  | lineEnd (expected : String)
  | unbalanced (column : Nat)
  | invalid (message : String) (column : Nat)
  deriving DecidableEq, Repr

namespace LineError

def message : LineError → String
  | .unexpected expected found _ => s!"expected {expected}, found {found}"
  | .lineEnd expected => s!"unexpected end of line, expected {expected}"
  | .unbalanced _ => "unbalanced delimiter"
  | .invalid message _ => s!"invalid statement: {message}"

def column? : LineError → Option Nat
  | .unexpected _ _ column => some column
  | .lineEnd _ => none
  | .unbalanced column => some column
  | .invalid _ column => some column

end LineError

end BasicSketch
