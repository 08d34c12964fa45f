import BasicSketch.LogicalLine
import BasicSketch.Text.Lines
import BasicSketch.Token.Scan

set_option autoImplicit false

/-! Rules of the linter, what they find, and the lines they look at. -/

namespace BasicSketch.Lint

inductive Rule where
  | debugDraw | suspiciousBaud | unusedVariable | blockingDelay | missingDelete
  deriving DecidableEq, Repr

namespace Rule

def id : Rule → String
  | .debugDraw => "debug-draw"
  | .suspiciousBaud => "suspicious-baud"
  | .unusedVariable => "unused-variable"
  | .blockingDelay => "blocking-delay"
  | .missingDelete => "missing-delete-sprite"

def severity : Rule → String
  | .suspiciousBaud => "INFO"
  | _ => "WARNING"

end Rule

structure Finding where
  rule : Rule
  line : Nat
  column : Nat
  message : String
  snippet : String
  deriving DecidableEq, Repr

namespace Finding

def render (file : String) (f : Finding) : String :=
  s!"{file}:{f.line}:{f.column} {f.rule.severity} {f.rule.id} - {f.message}"

end Finding

structure CodeLine where
  number : Nat
  source : String
  tokens : List Token

def codeTokens (line : String) : List Token := Token.ofLine (LogicalLine.stripComment line)

namespace CodeLine

def ofText (text : String) : List CodeLine :=
  (Text.lines text).mapIdx fun k line => ⟨k + 1, line, codeTokens line⟩

def finding (l : CodeLine) (rule : Rule) (column : Nat) (message : String) : Finding :=
  ⟨rule, l.number, column, message, Text.trim l.source⟩

end CodeLine

end BasicSketch.Lint
