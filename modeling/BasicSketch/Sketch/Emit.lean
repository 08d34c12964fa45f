import BasicSketch.Sketch.Declare

set_option autoImplicit false

/-! Writing statements: each goes to the scope that is open, block by block. -/

namespace BasicSketch.Sketch

def closeBlock (s : Sketch) (block : Block) (closer : String) : Sketch :=
  let (closed, s) := s.close block
  let s := if closed.isNone then s.report (.unopened s.line closer) else s
  s.emit closer

def insertSorted (text : String) : List String → List String
  | [] => [text]
  | first :: rest =>
    if text < first then text :: first :: rest
    else if text == first then first :: rest
    else first :: insertSorted text rest

/-- Adds an include; the first one that names a display library selects it. -/
def addInclude (s : Sketch) (target : String) : Sketch :=
  let display := match s.symbols.display with
    | some display => some display
    | none => Display.ofInclude? target
  { s with
    symbols := { s.symbols with display }
    includes := insertSorted target s.includes }

def procedureStart (s : Sketch) (h : ProcedureHeader) : Sketch :=
  if h.isSetup then s.enterRoutine .setup
  else if h.isLoop then s.enterRoutine .loop
  else s.openProcedure h

/-- A counting loop. The direction of a literal step is known, that of any other is decided when
the sketch runs. -/
def emitFor (s : Sketch) (counter : String) (start stop : Expr) (step : Option Expr) : Sketch :=
  let first := s.value start
  let last := s.value stop
  let declared := if s.isDeclared counter then "" else "int "
  let literal (n : Int) : String :=
    let compare := if n < 0 then ">=" else "<="
    s!"for ({declared}{counter} = {first}; {counter} {compare} {last}; {counter} += {n}) \x7b"
  let computed (step : Expr) : String :=
    let change := Cpp.operand (s.value step)
    s!"for ({declared}{counter} = {first}; ({change} >= 0) ? {counter} <= {last} : " ++
      s!"{counter} >= {last}; {counter} += {change}) \x7b"
  let header := match step with
    | none => literal 1
    | some step =>
      match step.integer? with
      | some n => literal n
      | none => computed step
  (s.emit header).openBlock .counted

def emitDo (s : Sketch) (test : LoopTest) : Sketch :=
  match test with
  | .always => (s.emit "do \x7b").openBlock (.doLoop false)
  | .whileTrue c => (s.emit s!"while ({s.condition c}) \x7b").openBlock (.doLoop true)
  | .untilTrue c => (s.emit s!"while (!({s.condition c})) \x7b").openBlock (.doLoop true)

def emitLoopEnd (s : Sketch) (test : LoopTest) : Sketch :=
  let (closed, s) := s.close (.doLoop false)
  let s := if closed.isNone then s.report (.unopenedLoop s.line) else s
  if closed == some (.doLoop true) then
    let s := if test == .always then s else s.report (.ignoredLoopTest s.line)
    s.emit "\x7d"
  else
    match test with
    | .always => s.emit "\x7d while (true);"
    | .whileTrue c => s.emit s!"\x7d while ({s.condition c});"
    | .untilTrue c => s.emit s!"\x7d while (!({s.condition c}));"

def enterCase (s : Sketch) : Sketch :=
  match s.blocks with
  | .select inCase :: rest =>
    let s := { s with blocks := .select true :: rest }
    if inCase then s.emit "break;" else s
  | _ => s.report (.caseOutside s.line)

/-- Ranges of literals with fewer values than this have a label for each. -/
def maxExpandedRange : Int := 256

def rangeLabels? (low high : Expr) : Option (List String) := do
  let first ← low.integer?
  let last ← high.integer?
  let span := last - first
  if 0 ≤ span && span < maxExpandedRange then
    some ((List.range (span.toNat + 1)).map fun k => s!"case {first + Int.ofNat k}:")
  else none

def caseLabels (s : Sketch) : CaseValue → List String
  | .value v => [s!"case {s.value v}:"]
  | .range low high =>
    (rangeLabels? low high).getD [s!"case {s.value low} ... {s.value high}:"]
  | .comparison operator v => [s!"// Case Is {operator} {s.value v} (not supported)"]

def emitCase (s : Sketch) (values : List CaseValue) : Sketch :=
  (values.flatMap s.caseLabels).foldl emitOutdented s.enterCase

def emitEndSelect (s : Sketch) : Sketch :=
  let s := if s.blocks.head? == some (.select true) then s.emit "break;" else s
  s.closeBlock (.select false) "\x7d"

def emitBoard (s : Sketch) (function : BoardFunction) (arguments : List Expr) : Sketch :=
  let values := arguments.map s.value
  let all := ", ".intercalate values
  let first := values.head?.getD ""
  match function with
  | .pinMode => s.emit s!"pinMode({all});"
  | .digitalWrite => s.emit s!"digitalWrite({all});"
  | .digitalRead => s.emit s!"digitalRead({all});"
  | .analogWrite => s.emit s!"analogWrite({all});"
  | .analogRead => s.emit s!"analogRead({all});"
  | .delay => s.emit s!"delay({all});"
  | .serialBegin =>
    let size := s.options.serialBuffer
    ((s.emit s!"Serial.begin({all});").emit s!"Serial.setRxBufferSize({size});").emit
      s!"Serial.setTxBufferSize({size});"
  | .serialPrint => s.emit s!"Serial.print({all});"
  | .serialPrintLine => s.emit s!"Serial.println({all});"
  | .deepSleep => s.emit s!"esp_deep_sleep({Cpp.operand first} * 1000);"
  | .lightSleep => s.emit s!"esp_light_sleep_start(); delay({first});"
  | .hibernate => s.emit "esp_deep_sleep(ESP_SLEEP_MAX_TIMER_WAKEUP);"
  | .wakeOnInterrupt => s.emit s!"esp_sleep_enable_ext0_wakeup({first}, 1);"

def clearCall : Display → String
  | .adafruitGfx => "clearDisplay()"
  | .u8g2 => "clearBuffer()"
  | .tftEspi | .lvgl => "fillScreen(TFT_BLACK)"

/-- Draws on the display object. Monochrome shapes have no colour. -/
def emitDraw (s : Sketch) (command : DrawCommand) (arguments : List Expr) : Sketch :=
  let s := s.setDrawn
  let display := s.symbols.panel
  if command == .clearDisplay then s.emit s!"{display.object}.{clearCall display};"
  else
    let values := arguments.map s.value
    let values := if display == .u8g2 && command.endsInColor then values.dropLast else values
    s.emit (Cpp.called s!"{display.object}.{command.method}" values ++ ";")

/-- A sprite is a global object that `setup` creates. -/
def createSprite (s : Sketch) (sprite : String) (values : List String) : Sketch :=
  if s.sprites.contains sprite then s.report (.repeatedSprite sprite)
  else
    let s := { s with sprites := s.sprites ++ [sprite] }
    (s.emitGlobal s!"TFT_eSprite {sprite} = TFT_eSprite(&tft);").emitSetup
      (Cpp.called s!"{sprite}.createSprite" values ++ ";")

def emitSprite (s : Sketch) (command : SpriteCommand) (sprite : String) (arguments : List Expr) :
    Sketch :=
  let s := s.setDrawn
  let values := arguments.map s.value
  let method (name : String) : Sketch := s.emit (Cpp.called s!"{sprite}.{name}" values ++ ";")
  match command with
  | .create =>
    let sizes := " ".intercalate values
    (s.createSprite sprite values).emit s!"// CREATE_SPRITE {sprite} {sizes}"
  | .fill => method "fillSprite"
  | .fillEllipse => method "fillEllipse"
  | .fillTriangle => method "fillTriangle"
  | .push => method "pushSprite"
  | .delete => s.emit s!"{sprite}.deleteSprite();"

def isPlainName (target : String) : Bool :=
  !target.isEmpty && target.toList.all Text.isNameChar

def constructs (value : Expr) : Bool :=
  Text.lower (String.ofList (value.text.toList.take 4)) == "new "

def emitAssign (s : Sketch) (target : String) (value : Expr) : Sketch :=
  let s := if isPlainName target && !constructs value then s.hoist target else s
  s.emit s!"{s.target target} = {s.value value};"

def emitClock (s : Sketch) : Clock → Sketch
  | .timer => s.emit "millis();"
  | clock => s.emit s!"// {clock.name} is not supported"

def perform (s : Sketch) : Action → Sketch
  | .label name => s.emit s!"{name}:"
  | .optionBase base => { s with symbols := { s.symbols with base } }
  | .optionExplicit => s
  | .includeFile target => s.addInclude target
  | .procedureStart header => s.procedureStart header
  | .procedureEnd _ => s.endProcedure
  | .malformedHeader source => s.emit source
  | .const name value => s.emitConst name value
  | .arrayLiteral literal => s.emitArrayLiteral literal
  | .dim declarations => s.emitDeclarations false declarations
  | .static declarations => s.emitDeclarations true declarations
  | .typeStart name => s.emitTypeStart name
  | .typeField field => s.emitTypeField field
  | .typeEnd => s.emitBodyEnd .record
  | .enumStart name => s.emitEnumStart name
  | .enumMember name value => s.emitEnumMember name value
  | .enumEnd => s.emitBodyEnd .enumeration
  | .exitLoop => s.emit "break;"
  | .exitProcedure => s.emit "return;"
  | .continueLoop => s.emit "continue;"
  | .goto label => s.emit s!"goto {label};"
  | .inputBox => s.emit "// InputBox is not supported (returns \"\")"
  | .messageBox message => s.emit s!"Serial.println({s.value message});"
  | .unsupported source => s.emit s!"// not supported: {source}"
  | .withObject object => s.emit s!"// With {object.text} (not supported)"
  | .endWith => s.emit "// End With"
  | .clock clock => s.emitClock clock
  | .ifBlock c => (s.emit s!"if ({s.condition c}) \x7b").openBlock .branch
  | .elseIf c => s.emitOutdented s!"\x7d else if ({s.condition c}) \x7b"
  | .elseBlock => s.emitOutdented "\x7d else \x7b"
  | .endIf => s.closeBlock .branch "\x7d"
  | .forLoop counter start stop step => s.emitFor counter start stop step
  | .forEach counter collection =>
    (s.emit s!"for (auto& {counter} : {s.value collection}) \x7b").openBlock .counted
  | .next => s.closeBlock .counted "\x7d"
  | .whileLoop c => (s.emit s!"while ({s.condition c}) \x7b").openBlock .whileLoop
  | .wend => s.closeBlock .whileLoop "\x7d"
  | .doLoop test => s.emitDo test
  | .loopEnd test => s.emitLoopEnd test
  | .select subject => (s.emit s!"switch ({s.value subject}) \x7b").openBlock (.select false)
  | .caseOf values => s.emitCase values
  | .caseElse => s.enterCase.emitOutdented "default:"
  | .endSelect => s.emitEndSelect
  | .board function arguments => s.emitBoard function arguments
  | .draw command arguments => s.emitDraw command arguments
  | .sprite command sprite arguments => s.emitSprite command sprite arguments
  | .randomize seed =>
    let value := (seed.map s.value).getD "millis()"
    s.emit s!"randomSeed({value});"
  | .doEvents => s.emit "delay(0);"
  | .call name arguments =>
    s.emit (Cpp.called (s.value (Expr.ofText name)) (arguments.map s.value) ++ ";")
  | .assign target value => s.emitAssign target value
  | .returnValue value => s.emit s!"return {s.value value};"
  | .untranslated source =>
    (s.report (.untranslated s.line source)).emit s!"// untranslated: {source}"

/-- Writes an `Every`: its body is a task of its own, which `loop` runs each time the interval is
over. -/
def emitEvery (s : Sketch) (interval : Expr) (body : Sketch → Sketch) : Sketch :=
  let line := s.line
  let id := s.everyCount + 1
  let s := { s with everyCount := id }
  let interval := s.value interval
  let task := s!"_every_task_{id}"
  let last := s!"_every_last_{id}"
  let s := s.emitGlobal s!"unsigned long {last} = 0;"
  let s := s.aside fun s =>
    let s := body (s.enterProcedure s!"void {task}();" s!"void {task}() \x7b")
    (s.start line).endProcedure
  let s := s.emitLoop 0 s!"if (millis() - {last} >= {interval}) \x7b"
  let s := s.emitLoop 1 s!"{last} = millis();"
  let s := s.emitLoop 1 s!"{task}();"
  s.emitLoop 0 "\x7d"

mutual

def place (s : Sketch) : Statement → Sketch
  | .plain _ action => s.perform action
  | .inlineIf _ condition thenBranch =>
    let test := s.condition condition
    let (thenCode, s) := s.captured fun s => s.place thenBranch
    s.emit s!"if ({test}) \x7b {thenCode} \x7d"
  | .inlineIfElse _ condition thenBranch elseBranch =>
    let test := s.condition condition
    let (thenCode, s) := s.captured fun s => s.place thenBranch
    let (elseCode, s) := s.captured fun s => s.place elseBranch
    s.emit s!"if ({test}) \x7b {thenCode} \x7d else \x7b {elseCode} \x7d"
  | .every _ interval body => s.emitEvery interval fun s => s.statements body

def statements (s : Sketch) : List Statement → Sketch
  | [] => s
  | first :: rest =>
    (s.writeFor first fun s => (s.start first.line).place first).statements rest

end

end BasicSketch.Sketch
