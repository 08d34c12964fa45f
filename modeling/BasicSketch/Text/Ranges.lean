set_option autoImplicit false

namespace BasicSketch.Text

/-- A set of code points as an increasing list of edges: the set starts at the first edge, stops
before the second, starts again at the third, and so on. -/
abbrev Edges := List Nat

def Edges.ofSteps (start : Nat) : List Nat → Edges
  | [] => []
  | step :: rest => (start + step) :: ofSteps (start + step) rest

/-- A code point lies in the set when an odd number of edges is at or below it. -/
def Edges.holds (edges : Edges) (c : Char) : Bool :=
  edges.countP (· ≤ c.toNat) % 2 == 1

end BasicSketch.Text
