import BasicSketch.Statement
import BasicSketch.Token.Reader

set_option autoImplicit false

/-! Lines that call something or assign a value, and the lines with options for the whole unit. -/

namespace BasicSketch

open Reader

namespace Phrase

def startsArgument : TokenKind → Bool
  | .identifier | .integer | .float | .hex | .octal | .binary | .text => true
  | .symbol .leftParen | .symbol .leftBrace | .symbol .minus => true
  | .keyword .Not | .keyword .New => true
  | _ => false

def splitMembers : List Token → List Token × List Token
  | [] => ([], [])
  | [t] => ([], [t])
  | t :: member :: rest =>
    if t.kind.isMember && member.isWord then
      let (members, after) := splitMembers rest
      (t :: member :: members, after)
    else ([], t :: member :: rest)

theorem splitMembers_append (ts : List Token) :
    (splitMembers ts).1 ++ (splitMembers ts).2 = ts := by
  fun_induction splitMembers ts with
  | case1 => rfl
  | case2 => rfl
  | case3 t member rest member' members after eq ih => simpa [eq] using ih
  | case4 => rfl

def members : Reader (List Token) := fun ts =>
  .ok ⟨splitMembers ts, ⟨_, splitMembers_append ts⟩⟩

/-- `Name`, `Name args`, `Name(args)` or `object.method(args)` -/
def call : Reader Action := do
  let first ← take Token.isWord "procedure name"
  let name := Token.slice (first :: (← members))
  match ← nextKind with
  | some kind => unless startsArgument kind do failHere "call arguments"
  | none => pure ()
  return .call name (← callArguments)

def isPlace (ts : List Token) : Bool :=
  match ts with
  | [] => true
  | t :: rest =>
    if t.kind.isMember then
      match rest with
      | [] => false
      | member :: after => member.isWord && isPlace after
    else if t.kind == .symbol .leftParen || t.kind == .symbol .leftBracket then
      match _closed : Token.closeGroup? 0 rest with
      | none => false
      | some (_, _, after) => isPlace after
    else false
termination_by ts.length
decreasing_by
  · simp only [List.length_cons]
    omega
  · have shorter := (Token.closeGroup?_suffix _closed).length_le
    simp only [List.length_cons]
    omega

def isTarget : List Token → Bool
  | [] => false
  | t :: rest => t.isWord && isPlace rest

/-- `target = value`, if the tokens up to the first equals sign at top level name a target. -/
def assignment? (ts : List Token) : Option (Except LineError Action) :=
  match Token.splitAtTop (· == .symbol .equals) 0 ts with
  | (_, []) => none
  | (target, _ :: rest) =>
    if isTarget target then
      some (((restExpr "value").value rest).map (.assign (Token.slice target)))
    else none

def assignment (ts : List Token) : Except LineError Action :=
  match assignment? ts with
  | some result => result
  | none => .error (errorHere "assignment" ts)

def board (function : BoardFunction) (column : Nat) : Reader Action := do
  let arguments ← callArguments
  if arguments.length != function.arity then
    fail (.invalid s!"{function.name} takes {function.arity} argument(s)" column)
  return .board function arguments

def arityMessage (name : String) (arity : Arity) : String :=
  s!"{name} takes {arity.least} to {arity.most} arguments"

def draw (command : DrawCommand) (column : Nat) : Reader Action := do
  let arguments ← callArguments
  unless command.arity.admits arguments.length do
    fail (.invalid (arityMessage command.name command.arity) column)
  return .draw command arguments

def sprite (command : SpriteCommand) (column : Nat) : Reader Action := do
  match ← callArguments with
  | [] => fail (.lineEnd "sprite name")
  | sprite :: arguments =>
    unless sprite.text.toList.all Text.isNameChar do
      fail (.invalid "sprite name expected" column)
    unless command.arity.admits arguments.length do
      fail (.invalid (arityMessage command.name command.arity) column)
    return .sprite command sprite.text arguments

/-- What follows `MsgBox`: only the message is kept. -/
def messageBox : Reader Action := do
  match ← callArguments with
  | [] => fail (.lineEnd "message")
  | message :: _ => return .messageBox message

def randomize : Reader Action := do
  if (← ahead).isEmpty then return .randomize none
  return .randomize (some (← restExpr "seed"))

def doEvents : Reader Action := do
  if ← accept (.symbol .leftParen) then expect (.symbol .rightParen) ")"
  lineEnd
  return .doEvents

def includeFile : Reader Action := do
  unless ← acceptWord "include" do failHere "INCLUDE"
  let target := Text.trim (Token.slice (← ahead))
  if target.isEmpty then fail (.lineEnd "include target")
  return .includeFile target

def base? (t : Token) : Option Nat :=
  if t.kind == .integer then (Text.readUnsigned? Text.maxWord t.text).filter (· ≤ 1) else none

def option (source : String) : Reader Action := do
  if ← acceptWord "base" then
    match (← ahead).head?.bind base? with
    | none => failHere "0 or 1"
    | some base =>
      skip
      lineEnd
      return .optionBase base
  if ← acceptWord "explicit" then
    lineEnd
    return .optionExplicit
  return .unsupported source

end Phrase

end BasicSketch
