import BasicSketch.Sketch.Basic
import BasicSketch.Text.Decimal
import BasicSketch.Text.DecimalDigit
import BasicSketch.Text.Lines

set_option autoImplicit false

namespace BasicSketch

structure LineMap where
  sources : List Nat
  deriving DecidableEq, Repr

namespace LineMap

def markedLine? (line : String) : Option Nat := do
  let rest ← SketchLine.markerStart.toList.isPrefixOf? (Text.dropBlanks line.toList)
  Text.readWithin? Text.maxLong (rest.takeWhile Text.isDecimalDigit)

/-- Each line belongs to the last marker at or before it, or else to `current`. -/
def sourcesFrom (current : Nat) : List String → List Nat
  | [] => []
  | line :: rest =>
    let current := (markedLine? line).getD current
    current :: sourcesFrom current rest

@[simp] theorem length_sourcesFrom (current : Nat) (lines : List String) :
    (sourcesFrom current lines).length = lines.length := by
  induction lines generalizing current with
  | nil => rfl
  | cons line rest ih => simp [sourcesFrom, ih]

def ofText (text : String) : LineMap := ⟨sourcesFrom 1 (Text.lines text)⟩

def size (m : LineMap) : Nat := m.sources.length

/-- The source line of a line, counted from 1. Lines beyond the end belong to that of the last. -/
def sourceLine (m : LineMap) (line : Nat) : Nat :=
  (m.sources[line - 1]?.or m.sources.getLast?).getD 1

end LineMap

end BasicSketch
