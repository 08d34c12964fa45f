import BasicSketch.Lint.Suppression
import BasicSketch.Text.Decimal

set_option autoImplicit false

/-! The linter. -/

namespace BasicSketch.Lint

/-! Drawing calls that are left over from debugging. -/

def startsDebugDraw : List Token → Bool
  | t :: dot :: method :: _ =>
    t.isNamed "SPRITE_FILL_ELLIPSE" ||
      (t.isNamed "tft" && dot.kind == .symbol .dot && method.isNamed "fillTriangle")
  | t :: _ => t.isNamed "SPRITE_FILL_ELLIPSE"
  | [] => false

def debugDraw? : List Token → Option Token
  | [] => none
  | t :: rest => if startsDebugDraw (t :: rest) then some t else debugDraw? rest

def debugDraws (l : CodeLine) : List Finding :=
  (debugDraw? l.tokens).toList.map fun t =>
    l.finding .debugDraw (t.start + 1)
      "Debug drawing call detected; this may overlay graphics in final output"

/-! Numbers that are baud rates. -/

def baudRates : List Nat :=
  [300, 1200, 2400, 4800, 9600, 19200, 38400, 57600, 74880, 115200, 230400, 250000, 500000,
   1000000, 2000000]

def isBaudRate (t : Token) : Bool :=
  t.kind == .integer && (Text.readUnsigned? Text.maxWord t.text).any baudRates.contains

def suspiciousBauds (l : CodeLine) : List Finding :=
  (l.tokens.find? isBaudRate).toList.map fun t =>
    l.finding .suspiciousBaud (t.start + 1)
      "Serial baud literal found; consider making this configurable"

/-! Variables that are declared and not used on another line. -/

def declared? : List Token → Option String
  | dim :: name :: _ =>
    if dim.kind == .keyword .Dim && name.kind == .identifier then some name.text else none
  | _ => none

def isUsed (lines : List CodeLine) (name : String) (declaredOn : Nat) : Bool :=
  lines.any fun l => l.number != declaredOn && l.tokens.any (Token.isNamed name)

def unusedVariables (lines : List CodeLine) : List Finding :=
  lines.filterMap fun l =>
    (declared? l.tokens).bind fun name =>
      if isUsed lines name l.number then none
      else some (l.finding .unusedVariable 1 s!"Variable {name} declared but never used")

/-! Sprites that are created and never deleted. -/

def nameAfter? (word : String) (ts : List Token) : Option String :=
  (ts.zip ts.tail).findSome? fun (a, b) =>
    if a.isNamed word && b.kind == .identifier then some b.text else none

/-- Records the line that creates a sprite; one created again keeps its place. -/
def recordSprite (created : List (String × CodeLine)) (l : CodeLine) : List (String × CodeLine) :=
  match nameAfter? "CREATE_SPRITE" l.tokens with
  | none => created
  | some name =>
    if created.any (·.1 == name) then
      created.map fun entry => if entry.1 == name then (name, l) else entry
    else created ++ [(name, l)]

def isDeleted (lines : List CodeLine) (sprite : String) : Bool :=
  lines.any fun l => nameAfter? "SPRITE_DELETE" l.tokens == some sprite

def missingDeletes (lines : List CodeLine) : List Finding :=
  ((lines.foldl recordSprite []).filter fun entry => !isDeleted lines entry.1).map fun (name, l) =>
    l.finding .missingDelete 1 s!"Sprite {name} created but no delete found"

/-! Delays that block. -/

structure Delay where
  start : Nat
  milliseconds : Nat

def delay? (ts : List Token) : Option Delay :=
  (ts.zip ts.tail).findSome? fun (a, b) =>
    if a.isNamed "delay" && b.kind == .integer then
      (Text.readUnsigned? Text.maxLong b.text).map fun n => ⟨a.start, n⟩
    else none

def blockingFrom : Nat := 200

def blockingDelays (l : CodeLine) : List Finding :=
  (delay? l.tokens).toList.filterMap fun d =>
    if blockingFrom ≤ d.milliseconds then
      some (l.finding .blockingDelay (d.start + 1)
        s!"Blocking Delay ({d.milliseconds} ms) detected; consider using a non-blocking timer")
    else none

def allFindings (lines : List CodeLine) : List Finding :=
  lines.flatMap (fun l => debugDraws l ++ suspiciousBauds l) ++ unusedVariables lines ++
    missingDeletes lines ++ lines.flatMap blockingDelays

def findings (text : String) : List Finding :=
  let lines := CodeLine.ofText text
  (allFindings lines).filter fun f => !suppresses lines f

end BasicSketch.Lint
