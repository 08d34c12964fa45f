import BasicSketch.Statement
import BasicSketch.Token.Reader

set_option autoImplicit false

/-! Lines that open or close a branch or a loop, and jumps. -/

namespace BasicSketch

open Reader

namespace Phrase

def condition : Reader Expr := exprUntil "condition" (· == .keyword .Then)

def elseIf : Reader Action := do
  let condition ← condition
  let _ ← accept (.keyword .Then)
  lineEnd
  return .elseIf condition

def elseBlock : Reader Action := do
  if ← accept (.keyword .If) then elseIf
  else
    lineEnd
    return .elseBlock

def forLoop : Reader Action := do
  if ← accept (.keyword .Each) then
    let counter ← name "loop variable"
    expect (.keyword .In) "IN"
    return .forEach counter (← restExpr "collection")
  let counter ← name "loop variable"
  expect (.symbol .equals) "="
  let start ← exprUntil "start value" (· == .keyword .To)
  expect (.keyword .To) "TO"
  let stop ← exprUntil "end value" (· == .keyword .Step)
  let step ← if ← accept (.keyword .Step) then some <$> restExpr "step value" else pure none
  return .forLoop counter start stop step

def whileLoop : Reader Action := do
  return .whileLoop (← restExpr "condition")

def loopTest : Reader LoopTest := do
  if ← accept (.keyword .While) then return .whileTrue (← restExpr "condition")
  if ← accept (.keyword .Until) then return .untilTrue (← restExpr "condition")
  lineEnd
  return .always

def wend : Reader Action := do
  lineEnd
  return .wend

def select : Reader Action := do
  expect (.keyword .Case) "CASE"
  return .select (← restExpr "expression")

def isComparison : TokenKind → Bool
  | .symbol .equals | .symbol .notEquals | .symbol .lessThan | .symbol .greaterThan
  | .symbol .lessEquals | .symbol .greaterEquals => true
  | _ => false

def caseValue : Reader CaseValue := do
  if ← accept (.keyword .Is) then
    let operator ← take (fun t => isComparison t.kind) "comparison operator"
    return .comparison operator.text (← exprUntil "value" (· == .symbol .comma))
  let low ← exprUntil "case value" (fun k => k == .symbol .comma || k == .keyword .To)
  if ← accept (.keyword .To) then
    return .range low (← exprUntil "range end" (· == .symbol .comma))
  return .value low

def caseOf : Reader Action := do
  if ← accept (.keyword .Else) then
    lineEnd
    return .caseElse
  let values ← commaList caseValue
  lineEnd
  return .caseOf values

def every : Reader Expr := do
  let interval ← exprUntil "interval" (· == .keyword .Do)
  expect (.keyword .Do) "DO"
  lineEnd
  return interval

def exitAction? : TokenKind → Option Action
  | .keyword .For | .keyword .Do | .keyword .While | .keyword .Select => some .exitLoop
  | .keyword .Sub | .keyword .Function => some .exitProcedure
  | _ => none

def exit : Reader Action := do
  match (← nextKind).bind exitAction? with
  | none => failHere "FOR, DO, WHILE, SELECT, SUB or FUNCTION"
  | some action =>
    skip
    lineEnd
    return action

def continueLoop : Reader Action := do
  match ← nextKind with
  | some (.keyword .For) | some (.keyword .Do) | some (.keyword .While) => skip
  | _ => pure ()
  lineEnd
  return .continueLoop

def goto : Reader Action := do
  let label ← take (fun t => t.isWord || t.kind == .integer) "label"
  lineEnd
  return .goto label.text

def returnValue : Reader Action := do
  if (← ahead).isEmpty then return .exitProcedure
  return .returnValue (← restExpr "return value")

def withObject : Reader Action := do
  return .withObject (← restExpr "object")

end Phrase

end BasicSketch
