import BasicSketch.Phrase.Declaration

set_option autoImplicit false

/-! Headers of procedures, and the lines that end a construct. -/

namespace BasicSketch

open Reader

namespace Phrase

/-- `[Optional] [ByRef|ByVal] name[()] [As type] [= value]` -/
def parameter : Reader Parameter := do
  let isOptional ← accept (.keyword .Optional)
  let byRef ← accept (.keyword .ByRef)
  unless byRef do
    let _ ← accept (.keyword .ByVal)
  let name ← name "parameter name"
  let isArray ← accept (.symbol .leftParen)
  if isArray then expect (.symbol .rightParen) ")"
  let type ← if ← accept (.keyword .As) then some <$> typeRef else pure none
  let initial ←
    if ← accept (.symbol .equals) then
      some <$> exprUntil "default value" (fun k => k == .symbol .comma || k == .symbol .rightParen)
    else pure none
  return { name, type, byRef, isOptional, initial, isArray }

def parameters : Reader (List Parameter) := do
  if ← accept (.symbol .leftParen) then
    let found ←
      if (← nextKind) == some (.symbol .rightParen) then pure [] else commaList parameter
    expect (.symbol .rightParen) ")"
    return found
  else return []

def header (kind : ProcedureKind) : Reader ProcedureHeader := do
  let name ← name "procedure name"
  let parameters ← parameters
  let result ← if ← accept (.keyword .As) then some <$> typeRef else pure none
  lineEnd
  return { kind, name, parameters, result }

def endAction? : TokenKind → Option Action
  | .keyword .Sub => some (.procedureEnd .sub)
  | .keyword .Function => some (.procedureEnd .function)
  | .keyword .If => some .endIf
  | .keyword .Select => some .endSelect
  | .keyword .With => some .endWith
  | .keyword .TypeWord => some .typeEnd
  | .keyword .Enum => some .enumEnd
  | _ => none

def ending : Reader Action := do
  match ← nextKind with
  | none => return .unsupported "End"
  | some kind =>
    match endAction? kind with
    | none => failHere "SUB, FUNCTION, IF, SELECT, TYPE, ENUM or WITH"
    | some action =>
      skip
      lineEnd
      return action

end Phrase

end BasicSketch
