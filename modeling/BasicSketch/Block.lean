set_option autoImplicit false

namespace BasicSketch

/-- A construct of the sketch that is open: its closing line is still to come. -/
inductive Block where
  | branch
  | counted
  | whileLoop
  /-- A loop whose condition, if any, was written at its head closes without one. -/
  | doLoop (preTested : Bool)
  /-- `inCase` once a label has been written. -/
  | select (inCase : Bool)
  | record
  | enumeration
  deriving DecidableEq, Repr

namespace Block

def describe : Block → String
  | .branch => "If"
  | .counted => "For"
  | .whileLoop => "While"
  | .doLoop preTested => "Do \x7b pre_tested: " ++ toString preTested ++ " \x7d"
  | .select inCase => "Select \x7b in_case: " ++ toString inCase ++ " \x7d"
  | .record => "Record"
  | .enumeration => "Enum"

def sameKind : Block → Block → Bool
  | .branch, .branch | .counted, .counted | .whileLoop, .whileLoop => true
  | .doLoop _, .doLoop _ | .select _, .select _ => true
  | .record, .record | .enumeration, .enumeration => true
  | _, _ => false

def describeTop : Option Block → String
  | none => "None"
  | some block => s!"Some({block.describe})"

def describeAll (blocks : List Block) : String :=
  "[" ++ ", ".intercalate (blocks.map describe) ++ "]"

end Block

end BasicSketch
