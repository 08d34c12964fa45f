import BasicSketch.Cpp.TypeName
import BasicSketch.Sketch.Basic
import BasicSketch.Statement

set_option autoImplicit false

/-! Declarations: variables, constants, arrays, records, enumerations and procedure headers. -/

namespace BasicSketch

namespace TypeRef

def cpp (t : TypeRef) : String :=
  let name := Cpp.typeName (some t.name)
  if t.pointer then name ++ "*" else name

end TypeRef

namespace Sketch

def typeText : Option TypeRef → String
  | some t => t.cpp
  | none => Cpp.typeName none

def sizes (bounds : List String) : String :=
  String.join (bounds.map fun bound => "[" ++ Cpp.dimensionSize bound ++ "]")

def declaresPointer (s : Sketch) (d : Declaration) : Bool :=
  match d.type with
  | none => false
  | some t => t.pointer || (!d.isNew && Cpp.isObjectName t.name && s.options.isPointerType t.name)

def declarationText (s : Sketch) (d : Declaration) : String × Sketch :=
  let type := Cpp.typeName (d.type.map TypeRef.name)
  if d.isArray then
    let bounds := d.dimensions.map s.value
    let pointer := if d.type.any TypeRef.pointer then "*" else ""
    (s!"{type}{pointer} {d.name}{sizes bounds};", s.addBounds d.name bounds)
  else
    let initial := d.initial.map s.value
    if s.declaresPointer d then
      let value := initial.getD "nullptr"
      (s!"{type}* {d.name} = {value};", s.addPointer d.name)
    else if d.type.any (fun t => Cpp.isObjectName t.name) then
      match initial with
      | some value => (s!"{type} {d.name} = {value};", s)
      | none => (s!"{type} {d.name};", s)
    else
      let value := initial.getD (Cpp.initialValue type)
      (s!"{type} {d.name} = {value};", s)

def emitVariable (s : Sketch) (isStatic : Bool) (d : Declaration) : Sketch :=
  let (text, s) := (s.declare d.name).declarationText d
  s.emit (if isStatic then "static " ++ text else text)

/-- Declares a variable. A name is declared once in a scope; in `setup` and `loop` a variable of
the name of a global is that global, unless it is static. -/
def emitDeclaration (s : Sketch) (isStatic : Bool) (d : Declaration) : Sketch :=
  let reuses := (s.scope == .setup || s.scope == .loop) && s.isGlobal d.name
  if reuses && !isStatic then s.report (.reusesGlobal s.line d.name)
  else
    let s := if reuses then s.report (.shadowsGlobal s.line d.name) else s
    if s.declaresHere d.name then s.report (.repeatedDeclaration s.line d.name)
    else s.emitVariable isStatic d

def emitDeclarations (s : Sketch) (isStatic : Bool) (ds : List Declaration) : Sketch :=
  ds.foldl (fun s d => s.emitDeclaration isStatic d) s

def emitConst (s : Sketch) (name : String) (value : Expr) : Sketch :=
  if s.isGlobal name then s.report (.repeatedConstant s.line name)
  else
    let s := s.declareGlobal name
    s.emitGlobal <|
      if value.isQuoted then s!"const char* {name} = {value.text};"
      else s!"const auto {name} = {s.value value};"

/-- Constant arrays are global, others stand where they are declared. -/
def emitArrayLiteral (s : Sketch) (a : ArrayLiteral) : Sketch :=
  if if a.constant then s.isGlobal a.name else s.declaresHere a.name then
    s.report (.repeatedArray s.line a.name)
  else
    let s := if a.constant then s.declareGlobal a.name else s.declare a.name
    let elements := a.elements.map s.value
    let s := s.addBounds a.name [toString (elements.length - 1)]
    let list := ", ".intercalate elements
    let text := s!"{a.type.cpp} {a.name}[] = \x7b{list}\x7d;"
    if a.constant then s.emitGlobal ("const " ++ text) else s.emit text

def emitTypeStart (s : Sketch) (name : String) : Sketch :=
  (s.emit s!"struct {name} \x7b").openBlock .record

def emitTypeField (s : Sketch) (field : Declaration) : Sketch :=
  let sizes := sizes (field.dimensions.map s.value)
  s.emit s!"{typeText field.type} {field.name}{sizes};"

def emitEnumStart (s : Sketch) (name : String) : Sketch :=
  (s.emit s!"enum {name} \x7b").openBlock .enumeration

def emitEnumMember (s : Sketch) (name : String) (value : Option Expr) : Sketch :=
  match value with
  | some value => s.emit s!"{name} = {s.value value},"
  | none => s.emit s!"{name},"

def emitBodyEnd (s : Sketch) (block : Block) : Sketch :=
  let (closed, s) := s.close block
  let s := if closed.isNone then s.report (.unopenedBody s.line) else s
  s.emit "\x7d;"

def parameterText (s : Sketch) (p : Parameter) : String × Option String × Sketch :=
  let type := Cpp.typeName (p.type.map TypeRef.name)
  let isPointer := p.type.any TypeRef.pointer
  let s := if isPointer then s.addPointer p.name else s
  let text :=
    if isPointer then s!"{type}* {p.name}"
    else if p.isArray then s!"{type} {p.name}[]"
    else if p.byRef then s!"{type}& {p.name}"
    else s!"{type} {p.name}"
  let initial := match p.initial with
    | some value => some (s.value value)
    | none => if p.isOptional then some (Cpp.initialValue type) else none
  (text, initial, s)

def parameterTexts (s : Sketch) : List Parameter → List String × List String × Sketch
  | [] => ([], [], s)
  | p :: rest =>
    let (text, initial, s) := s.parameterText p
    let (declared, defined, s) := s.parameterTexts rest
    let first := match initial with
      | some value => text ++ " = " ++ value
      | none => text
    (first :: declared, text :: defined, s)

def openProcedure (s : Sketch) (h : ProcedureHeader) : Sketch :=
  let result := match h.kind with
    | .sub => "void"
    | .function => typeText h.result
  let (declared, defined, s) := s.parameterTexts h.parameters
  let head := s!"{result} {h.name}"
  let signature := Cpp.called head declared ++ ";"
  let header := Cpp.called head defined ++ " \x7b"
  let s := (s.enterProcedure signature header).declare h.name
  h.parameters.foldl (fun s p => s.declare p.name) s

end Sketch

end BasicSketch
