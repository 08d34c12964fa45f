set_option autoImplicit false

namespace BasicSketch

/-- A failure of the unit's assembly itself; no source text leads to one. -/
inductive SketchFault where
  | render (message : String)
  | internal (message : String)
  deriving DecidableEq, Repr

structure SketchError where
  fault : SketchFault
  line : Option Nat
  context : Option String
  deriving DecidableEq, Repr

namespace SketchFault

def message : SketchFault → String
  | .render message => s!"render failed: {message}"
  | .internal message => s!"internal error: {message}"

end SketchFault

namespace SketchError

def ofFault (fault : SketchFault) : SketchError := ⟨fault, none, none⟩

def withLine (e : SketchError) (line : Nat) : SketchError := { e with line := some line }

def withContext (e : SketchError) (context : String) : SketchError :=
  { e with context := some context }

def message (e : SketchError) : String :=
  let context := match e.context with
    | some text => s!" ({text})"
    | none => ""
  let line := match e.line with
    | some number => s!" at line {number}"
    | none => ""
  s!"code generation error: {e.fault.message}{context}{line}"

end SketchError

end BasicSketch
