import BasicSketch.Lint.Check

set_option autoImplicit false

/-! Quick fixes. -/

namespace BasicSketch.Lint

inductive Fix where
  | removeLine | commentLine | insertDelete | replaceWithEvery
  deriving DecidableEq, Repr

namespace Fix

def id : Fix → String
  | .removeLine => "remove_line"
  | .commentLine => "comment_line"
  | .insertDelete => "insert_delete"
  | .replaceWithEvery => "replace_with_every"

def label : Fix → String
  | .removeLine => "Remove line"
  | .commentLine => "Comment out line"
  | .insertDelete => "Insert sprite delete"
  | .replaceWithEvery => "Replace with Every skeleton"

def all : List Fix := [.removeLine, .commentLine, .insertDelete, .replaceWithEvery]

def ofId? (name : String) : Option Fix := all.find? (·.id == name)

def offered : Rule → List Fix
  | .debugDraw => [.removeLine]
  | .missingDelete => [.insertDelete]
  | .blockingDelay => [.commentLine, .replaceWithEvery]
  | .suspiciousBaud | .unusedVariable => []

def commented (line : String) : String := "' " ++ line

/-- The lines that take the place of a line, if the fix applies to it. A sprite is named by the
snippet first. -/
def replacement? (fix : Fix) (snippet line : String) : Option (List String) :=
  match fix with
  | .removeLine => some []
  | .commentLine => some [commented line]
  | .insertDelete =>
    let sprite (text : String) := nameAfter? "CREATE_SPRITE" (codeTokens text)
    ((sprite snippet).or (sprite line)).map fun name => [line, "SPRITE_DELETE " ++ name]
  | .replaceWithEvery =>
    (delay? (codeTokens line)).map fun d =>
      [commented line, s!"Every {d.milliseconds} Do", "    ' move blocking code here", "End Do"]

/-- Joins lines; the last one ends in a line feed if that of `text` does. -/
def joinLike (text : String) (lines : List String) : String :=
  "\n".intercalate lines ++ (if Text.endsWith text "\n" then "\n" else "")

/-- Applies a fix at a line, counted from 1. The text stays if it does not apply there. -/
def apply (fix : Fix) (line : Nat) (snippet : String) (text : String) : String :=
  let lines := Text.lines text
  let fixed := do
    guard (line ≠ 0)
    let source ← lines[line - 1]?
    let replacement ← fix.replacement? snippet source
    return joinLike text (lines.take (line - 1) ++ replacement ++ lines.drop line)
  fixed.getD text

end Fix

end BasicSketch.Lint
