import BasicSketch.Block
import BasicSketch.LineError

set_option autoImplicit false

/-! Events: what reading a source and writing its sketch report along the way. -/

namespace BasicSketch

inductive BodyKind where
  | record | enumeration
  deriving DecidableEq, Repr

namespace BodyKind

def word : BodyKind → String
  | .record => "Type"
  | .enumeration => "Enum"

end BodyKind

inductive Event where
  | lineKept (line : Nat) (error : LineError) (text : String)
  | malformedHeader (line : Nat) (error : LineError)
  | unclosedBody (line : Nat) (body : BodyKind)
  | unclosedEvery (line : Nat)
  | statementsRead (count : Nat)
  | mismatchedClose (line : Nat) (closing : Block) (top : Option Block)
  | unclosedBlocks (line : Nat) (closer : String) (blocks : List Block)
  | hoisted (line : Nat) (name : String)
  | endOutside (line : Nat)
  | unclosedProcedure (line : Nat) (reason : String)
  | redefined (signature : String)
  | reusesGlobal (line : Nat) (name : String)
  | shadowsGlobal (line : Nat) (name : String)
  | repeatedDeclaration (line : Nat) (name : String)
  | repeatedConstant (line : Nat) (name : String)
  | repeatedArray (line : Nat) (name : String)
  | unopenedBody (line : Nat)
  | repeatedSprite (name : String)
  | untranslated (line : Nat) (source : String)
  | unopened (line : Nat) (closer : String)
  | unopenedLoop (line : Nat)
  | ignoredLoopTest (line : Nat)
  | caseOutside (line : Nat)
  deriving DecidableEq, Repr

namespace Event

def isWarning : Event → Bool
  | .unclosedBody .. | .unclosedEvery .. | .unclosedBlocks .. | .endOutside ..
  | .unclosedProcedure .. | .shadowsGlobal .. | .unopenedBody .. | .unopened ..
  | .unopenedLoop .. | .ignoredLoopTest .. | .caseOutside .. => true
  | _ => false

def message : Event → String
  | .lineKept line error text => s!"line {line}: untranslated ({error.message}): {text}"
  | .malformedHeader line error => s!"line {line}: malformed header ({error.message})"
  | .unclosedBody line body => s!"line {line}: {body.word} block has no End {body.word}"
  | .unclosedEvery line => s!"line {line}: Every block has no End Do"
  | .statementsRead count => s!"parsed {count} statements"
  | .mismatchedClose line closing top =>
    s!"line {line}: closing {closing.describe} but top of block stack is " ++
      Block.describeTop top
  | .unclosedBlocks line closer blocks =>
    s!"line {line}: {closer} closes with {blocks.length} unclosed block(s): " ++
      Block.describeAll blocks
  | .hoisted line name => s!"line {line}: hoisting {name} as float"
  | .endOutside line => s!"line {line}: End without an open procedure"
  | .unclosedProcedure line reason => s!"line {line}: procedure not closed before {reason}"
  | .redefined signature => s!"redefinition of {signature}: last body wins"
  | .reusesGlobal line name => s!"line {line}: {name} reuses the global declaration"
  | .shadowsGlobal line name => s!"line {line}: Static {name} shadows a global"
  | .repeatedDeclaration line name => s!"line {line}: duplicate declaration of {name} skipped"
  | .repeatedConstant line name => s!"line {line}: duplicate constant {name} skipped"
  | .repeatedArray line name => s!"line {line}: duplicate array {name} skipped"
  | .unopenedBody line => s!"line {line}: End Type/End Enum without an open block"
  | .repeatedSprite name => s!"sprite {name} already created"
  | .untranslated line source => s!"line {line}: untranslated: {source}"
  | .unopened line closer => s!"line {line}: {closer} without a matching opener"
  | .unopenedLoop line => s!"line {line}: Loop without a matching Do"
  | .ignoredLoopTest line => s!"line {line}: Loop condition after a tested Do is ignored"
  | .caseOutside line => s!"line {line}: Case outside Select Case"

def level (e : Event) : String := if e.isWarning then "WARN" else "DEBUG"

def render (e : Event) : String := e.level ++ " " ++ e.message

end Event

end BasicSketch
