import BasicSketch.Cpp.Expression
import BasicSketch.Event
import BasicSketch.Options
import BasicSketch.Statement

set_option autoImplicit false

/-! A sketch while it is written. -/

namespace BasicSketch

inductive Scope where
  | global | setup | loop | procedure
  deriving DecidableEq, Repr

structure Origin where
  /-- The statement it was written for; none once the source has ended. -/
  author : Option Statement
  /-- It stands where the statement stands, not in a scope that the statement names. -/
  inPlace : Bool

inductive SketchLine where
  | marker (origin : Origin) (depth source : Nat)
  | code (origin : Origin) (depth : Nat) (text : String)

namespace SketchLine

def indent (depth : Nat) : String := String.ofList (List.replicate (4 * depth) ' ')

def markerStart : String := "// __VB_LINE__:"

def render : SketchLine → String
  | .marker _ depth source => indent depth ++ markerStart ++ toString source
  | .code _ depth text => indent depth ++ text

end SketchLine

structure Procedure where
  signature : String
  header : List SketchLine
  /-- Names that are assigned and declared nowhere. -/
  hoisted : List String
  body : List SketchLine

namespace Procedure

def hoistedLine (name : String) : SketchLine := .code ⟨none, false⟩ 1 s!"float {name} = 0;"

def lines (p : Procedure) : List SketchLine := p.header ++ p.hoisted.map hoistedLine ++ p.body

end Procedure

structure Sketch where
  options : Options
  symbols : Symbols
  globals : List SketchLine
  setup : List SketchLine
  loop : List SketchLine
  procedures : List Procedure
  signatures : List String
  includes : List String
  sprites : List String
  blocks : List Block
  scope : Scope
  open? : Option Procedure
  globalNames : List String
  localNames : List String
  everyCount : Nat
  author : Option Statement
  line : Nat
  marked : List Scope
  /-- Collects the code of a branch of a single-line `If` instead of writing it. -/
  capture : Option (List String)
  events : List Event

def knownCalls : List String :=
  ["digitalread", "analogread", "millis", "micros", "serial", "pinmode", "digitalwrite",
   "analogwrite", "delay", "min", "max", "abs", "constrain", "map", "begin", "print",
   "println", "read", "write", "available", "setup", "loop", "atoi", "atol", "atof",
   "byte", "bool", "sqrt", "round", "trunc", "log", "exp", "atan", "randomseed", "random",
   "string", "ubound", "lbound"]

namespace Sketch

def empty (options : Options) : Sketch where
  options
  symbols :=
    { pointers := []
      callNames := knownCalls ++ options.callNames.map Text.lower
      bounds := []
      base := 0
      display := none
      drawn := false }
  globals := []
  setup := []
  loop := []
  procedures := []
  signatures := []
  includes := []
  sprites := []
  blocks := []
  scope := .global
  open? := none
  globalNames := []
  localNames := []
  everyCount := 0
  author := none
  line := 0
  marked := []
  capture := none
  events := []

def report (s : Sketch) (e : Event) : Sketch := { s with events := s.events ++ [e] }

/-! Writing code. -/

def start (s : Sketch) (line : Nat) : Sketch := { s with line, marked := [] }

def writeFor (s : Sketch) (st : Statement) (write : Sketch → Sketch) : Sketch :=
  { write { s with author := some st } with author := s.author }

def append (s : Sketch) (scope : Scope) (lines : List SketchLine) : Sketch :=
  match scope, s.open? with
  | .setup, _ => { s with setup := s.setup ++ lines }
  | .loop, _ => { s with loop := s.loop ++ lines }
  | .procedure, some p => { s with open? := some { p with body := p.body ++ lines } }
  | _, _ => { s with globals := s.globals ++ lines }

/-- Writes a line of code to a scope, after the marker of the statement if it has none there. -/
def push (s : Sketch) (inPlace : Bool) (scope : Scope) (depth : Nat) (text : String) : Sketch :=
  match s.capture with
  | some texts => { s with capture := some (texts ++ [Text.trim text]) }
  | none =>
    let origin : Origin := ⟨s.author, inPlace⟩
    if s.marked.contains scope then s.append scope [.code origin depth text]
    else
      { s with marked := s.marked ++ [scope] }.append scope
        [.marker origin depth s.line, .code origin depth text]

def depth (s : Sketch) : Nat :=
  match s.scope with
  | .global => s.blocks.length
  | _ => 1 + s.blocks.length

def emit (s : Sketch) (text : String) : Sketch := s.push true s.scope s.depth text

def emitOutdented (s : Sketch) (text : String) : Sketch := s.push true s.scope (s.depth - 1) text

def emitGlobal (s : Sketch) (text : String) : Sketch := s.push false .global 0 text

def emitSetup (s : Sketch) (text : String) : Sketch := s.push false .setup 1 text

def emitLoop (s : Sketch) (extra : Nat) (text : String) : Sketch :=
  s.push false .loop (1 + extra) text

def captured (s : Sketch) (write : Sketch → Sketch) : String × Sketch :=
  let s' := write { s with capture := some [] }
  (" ".intercalate (s'.capture.getD []), { s' with capture := s.capture })

/-! Expressions. -/

def value (s : Sketch) (e : Expr) : String := Cpp.value s.symbols e

def condition (s : Sketch) (e : Expr) : String := Cpp.condition s.symbols e

def target (s : Sketch) (text : String) : String := Cpp.target s.symbols text

/-! Names. -/

def declaresHere (s : Sketch) (name : String) : Bool :=
  match s.scope with
  | .global => s.globalNames.contains (Text.lower name)
  | _ => s.localNames.contains (Text.lower name)

def isGlobal (s : Sketch) (name : String) : Bool := s.globalNames.contains (Text.lower name)

def isDeclared (s : Sketch) (name : String) : Bool :=
  s.localNames.contains (Text.lower name) || s.isGlobal name

def declareGlobal (s : Sketch) (name : String) : Sketch :=
  if s.isGlobal name then s else { s with globalNames := s.globalNames ++ [Text.lower name] }

def declare (s : Sketch) (name : String) : Sketch :=
  match s.scope with
  | .global => s.declareGlobal name
  | _ =>
    if s.declaresHere name then s else { s with localNames := s.localNames ++ [Text.lower name] }

def addPointer (s : Sketch) (name : String) : Sketch :=
  { s with symbols := { s.symbols with pointers := name :: s.symbols.pointers } }

def addBounds (s : Sketch) (name : String) (bounds : List String) : Sketch :=
  { s with symbols := { s.symbols with bounds := (Text.lower name, bounds) :: s.symbols.bounds } }

def setDrawn (s : Sketch) : Sketch := { s with symbols := { s.symbols with drawn := true } }

/-! Blocks. -/

def openBlock (s : Sketch) (block : Block) : Sketch := { s with blocks := block :: s.blocks }

/-- Closes the innermost block if it is of the kind of `block`, and says which one it was. -/
def close (s : Sketch) (block : Block) : Option Block × Sketch :=
  match s.blocks with
  | [] => (none, s.report (.mismatchedClose s.line block none))
  | top :: rest =>
    if top.sameKind block then (some top, { s with blocks := rest })
    else (none, s.report (.mismatchedClose s.line block (some top)))

def dropBlocks (s : Sketch) (closer : String) : Sketch :=
  if s.blocks.isEmpty then s
  else { s.report (.unclosedBlocks s.line closer s.blocks.reverse) with blocks := [] }

/-! Procedures. -/

/-- A procedure takes the place of an earlier one with its signature. -/
def addProcedure (s : Sketch) (p : Procedure) : Sketch :=
  let s :=
    if s.procedures.any (·.signature == p.signature) then
      { s.report (.redefined p.signature) with
        procedures := s.procedures.filter (·.signature != p.signature) }
    else s
  { s with
    procedures := s.procedures ++ [p]
    signatures :=
      if s.signatures.contains p.signature then s.signatures else s.signatures ++ [p.signature] }

def finishProcedure (s : Sketch) : Sketch :=
  match s.open? with
  | none => s
  | some p => { s with open? := none }.addProcedure p

def endProcedure (s : Sketch) : Sketch :=
  match s.scope with
  | .global => s.report (.endOutside s.line)
  | .setup | .loop => { s.dropBlocks "End Sub" with scope := .global }
  | .procedure =>
    { ((s.dropBlocks "End").push false .procedure 0 "\x7d").finishProcedure with scope := .global }

def leave (s : Sketch) (reason : String) : Sketch :=
  if s.scope == .global then s else (s.report (.unclosedProcedure s.line reason)).endProcedure

def enterRoutine (s : Sketch) (scope : Scope) : Sketch :=
  { s.leave "next procedure" with scope, localNames := [] }

def enterProcedure (s : Sketch) (signature header : String) : Sketch :=
  let s :=
    { s.leave "next procedure" with
      scope := .procedure
      localNames := []
      open? := some { signature, header := [], hoisted := [], body := [] } }
  let s := s.push false .procedure 0 header
  { s with open? := s.open?.map fun p => { p with header := p.body, body := [] } }

def hoist (s : Sketch) (name : String) : Sketch :=
  if s.scope != .procedure || s.isDeclared name then s
  else
    let s := s.declare name
    match s.open? with
    | none => s
    | some p =>
      { s.report (.hoisted s.line name) with
        open? := some { p with hoisted := p.hoisted ++ [name] } }

def aside (s : Sketch) (inside : Sketch → Sketch) : Sketch :=
  let s' := inside { s with scope := .global, blocks := [], open? := none, localNames := [] }
  { s'.leave "end of Every block" with
    scope := s.scope, blocks := s.blocks, open? := s.open?, localNames := s.localNames }

def finish (s : Sketch) : Sketch := (s.leave "end of input").dropBlocks "end of input"

end Sketch

end BasicSketch
