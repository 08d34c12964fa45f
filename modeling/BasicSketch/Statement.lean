import BasicSketch.Command
import BasicSketch.Expr

set_option autoImplicit false

/-! Statements. -/

namespace BasicSketch

structure TypeRef where
  name : String
  pointer : Bool
  deriving DecidableEq, Repr

structure Declaration where
  name : String
  dimensions : List Expr
  type : Option TypeRef
  isNew : Bool
  initial : Option Expr
  deriving DecidableEq, Repr

structure ArrayLiteral where
  name : String
  type : TypeRef
  elements : List Expr
  constant : Bool
  deriving DecidableEq, Repr

inductive ProcedureKind where
  | sub | function
  deriving DecidableEq, Repr

structure Parameter where
  name : String
  type : Option TypeRef
  byRef : Bool
  isOptional : Bool
  initial : Option Expr
  isArray : Bool
  deriving DecidableEq, Repr

structure ProcedureHeader where
  kind : ProcedureKind
  name : String
  parameters : List Parameter
  result : Option TypeRef
  deriving DecidableEq, Repr

inductive LoopTest where
  | always
  | whileTrue (condition : Expr)
  | untilTrue (condition : Expr)
  deriving DecidableEq, Repr

inductive CaseValue where
  | value (value : Expr)
  | range (low high : Expr)
  | comparison (operator : String) (value : Expr)
  deriving DecidableEq, Repr

inductive Clock where
  | timer | now | date | time
  deriving DecidableEq, Repr

inductive Action where
  | label (name : String)
  | optionBase (base : Nat)
  | optionExplicit
  | includeFile (target : String)
  | procedureStart (header : ProcedureHeader)
  | procedureEnd (kind : ProcedureKind)
  | malformedHeader (source : String)
  | const (name : String) (value : Expr)
  | arrayLiteral (literal : ArrayLiteral)
  | dim (declarations : List Declaration)
  | static (declarations : List Declaration)
  | typeStart (name : String)
  | typeField (field : Declaration)
  | typeEnd
  | enumStart (name : String)
  | enumMember (name : String) (value : Option Expr)
  | enumEnd
  | exitLoop
  | exitProcedure
  | continueLoop
  | goto (label : String)
  | inputBox
  | messageBox (message : Expr)
  | unsupported (source : String)
  | withObject (object : Expr)
  | endWith
  | clock (clock : Clock)
  | ifBlock (condition : Expr)
  | elseIf (condition : Expr)
  | elseBlock
  | endIf
  | forLoop (counter : String) (start stop : Expr) (step : Option Expr)
  | forEach (counter : String) (collection : Expr)
  | next
  | whileLoop (condition : Expr)
  | wend
  | doLoop (test : LoopTest)
  | loopEnd (test : LoopTest)
  | select (subject : Expr)
  | caseOf (values : List CaseValue)
  | caseElse
  | endSelect
  | board (function : BoardFunction) (arguments : List Expr)
  | draw (command : DrawCommand) (arguments : List Expr)
  | sprite (command : SpriteCommand) (sprite : String) (arguments : List Expr)
  | randomize (seed : Option Expr)
  | doEvents
  | call (name : String) (arguments : List Expr)
  | assign (target : String) (value : Expr)
  | returnValue (value : Expr)
  | untranslated (source : String)
  deriving DecidableEq, Repr

inductive Statement where
  | plain (line : Nat) (action : Action)
  | inlineIf (line : Nat) (condition : Expr) (thenBranch : Statement)
  | inlineIfElse (line : Nat) (condition : Expr) (thenBranch elseBranch : Statement)
  | every (line : Nat) (interval : Expr) (body : List Statement)

namespace ProcedureHeader

def isSetup (h : ProcedureHeader) : Bool := h.kind == .sub && Text.sameWord h.name "setup"

def isLoop (h : ProcedureHeader) : Bool := h.kind == .sub && Text.sameWord h.name "loop"

end ProcedureHeader

namespace Declaration

def isArray (d : Declaration) : Bool := !d.dimensions.isEmpty

end Declaration

namespace Clock

def name : Clock → String
  | .timer => "Timer"
  | .now => "Now"
  | .date => "Date"
  | .time => "Time"

end Clock

namespace Statement

def line : Statement → Nat
  | .plain line _ | .inlineIf line _ _ | .inlineIfElse line _ _ _ | .every line _ _ => line

end Statement

end BasicSketch
