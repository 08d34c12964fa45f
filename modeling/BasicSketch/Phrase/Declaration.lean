import BasicSketch.Statement
import BasicSketch.Token.Reader

set_option autoImplicit false

/-! Lines that declare variables, constants, records and enumerations. -/

namespace BasicSketch

open Reader

namespace Phrase

def scopes (soFar : String) :
    (ts : List Token) → Except LineError { r : String × List Token // r.2 <:+ ts }
  | [] => .ok ⟨(soFar, []), List.suffix_refl []⟩
  | [t] =>
    if t.kind == .symbol .doubleColon then .error (errorHere "type name" [])
    else .ok ⟨(soFar, [t]), List.suffix_refl [t]⟩
  | t :: part :: rest =>
    if t.kind == .symbol .doubleColon then
      if part.isWord then
        match scopes (soFar ++ "::" ++ part.text) rest with
        | .error e => .error e
        | .ok ⟨r, left⟩ =>
          .ok ⟨r, left.trans ((List.suffix_cons part rest).trans (List.suffix_cons t _))⟩
      else .error (errorHere "type name" (part :: rest))
    else .ok ⟨(soFar, t :: part :: rest), List.suffix_refl _⟩

/-- `Name[::Name]*[*]` -/
def typeRef : Reader TypeRef := do
  let first ← name "type name"
  let full ← scopes first
  return ⟨full, ← accept (.symbol .star)⟩

def bounds : Reader (List Expr) := do
  match ← nextKind with
  | some (.symbol .leftParen) =>
    let (first, inside, close) ← group "("
    if inside.isEmpty then fail (.invalid "array bounds required" first.start)
    else groupArguments inside close
  | _ => return []

/-- `name[(bounds)] [As [New] type] [= value]` -/
def declaration : Reader Declaration := do
  let name ← name "variable name"
  let dimensions ← bounds
  let (type, isNew) ←
    if ← accept (.keyword .As) then
      let isNew ← accept (.keyword .New)
      pure (some (← typeRef), isNew)
    else pure (none, false)
  let initial ←
    if ← accept (.symbol .equals) then
      some <$> exprUntil "initial value" (· == .symbol .comma)
    else pure none
  return { name, dimensions, type, isNew, initial }

/-- The tokens begin like `name() As` and have a brace at top level. -/
def startsArrayLiteral : List Token → Bool
  | name :: left :: right :: as :: rest =>
    name.isWord && left.kind == .symbol .leftParen && right.kind == .symbol .rightParen &&
      as.kind == .keyword .As &&
      !(Token.splitAtTop (· == .symbol .leftBrace) 0
        (name :: left :: right :: as :: rest)).2.isEmpty
  | _ => false

/-- `name() As type = {a, b, ...}`, if the tokens begin like one. -/
def arrayLiteral? (constant : Bool) : Reader (Option ArrayLiteral) := do
  if startsArrayLiteral (← ahead) then
    let name ← name "array name"
    skip
    skip
    skip
    let type ← typeRef
    expect (.symbol .equals) "="
    if (← nextKind) != some (.symbol .leftBrace) then failHere "\x7b"
    let (_, inside, close) ← group "\x7b"
    let elements ← groupArguments inside close
    lineEnd
    return some { name, type, elements, constant }
  else return none

def declarationLine (wrap : List Declaration → Action) : Reader Action := do
  match ← arrayLiteral? false with
  | some literal => return .arrayLiteral literal
  | none =>
    let declarations ← commaList declaration
    lineEnd
    return wrap declarations

def constant : Reader Action := do
  match ← arrayLiteral? true with
  | some literal => return .arrayLiteral literal
  | none =>
    let name ← name "constant name"
    if ← accept (.keyword .As) then
      let _ ← typeRef
    expect (.symbol .equals) "="
    return .const name (← restExpr "constant value")

def typeStart : Reader Action := do
  let name ← name "type name"
  lineEnd
  return .typeStart name

def enumStart : Reader Action := do
  let name ← name "enum name"
  lineEnd
  return .enumStart name

def typeField : Reader Action := do
  match ← nextKind with
  | some (.keyword .Dim) | some (.keyword .Public) | some (.keyword .Private) => skip
  | _ => pure ()
  let field ← declaration
  lineEnd
  return .typeField field

def enumMember : Reader Action := do
  let name ← name "enum member"
  if ← accept (.symbol .equals) then
    return .enumMember name (some (← restExpr "enum value"))
  lineEnd
  return .enumMember name none

end Phrase

end BasicSketch
