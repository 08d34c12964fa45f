import BasicSketch.Program
import BasicSketch.Sketch.Emit
import BasicSketch.Text.Lines

set_option autoImplicit false

/-!
The text of a sketch: includes, forward declarations, globals, procedures, `setup` and `loop`.
-/

namespace BasicSketch

namespace Sketch

/-- Definitions of the functions that `Split`, `Join` and `Filter` call. -/
def helperLines : List String :=
  ["// Runtime helpers for Split, Join and Filter",
   "static std::vector<String> __vb_split(const String& input, const String& delim) \x7b",
   "    std::vector<String> parts;",
   "    int start = 0;",
   "    int idx = 0;",
   "    if (delim.length() == 0) \x7b parts.push_back(input); return parts; \x7d",
   "    while ((idx = input.indexOf(delim, start)) != -1) \x7b",
   "        parts.push_back(input.substring(start, idx));",
   "        start = idx + delim.length();",
   "    \x7d",
   "    parts.push_back(input.substring(start));",
   "    return parts;",
   "\x7d",
   "",
   "static String __vb_join(const std::vector<String>& parts, const String& delim) \x7b",
   "    String out = \"\";",
   "    for (size_t i = 0; i < parts.size(); ++i) \x7b",
   "        out += parts[i];",
   "        if (i + 1 < parts.size()) out += delim;",
   "    \x7d",
   "    return out;",
   "\x7d",
   "",
   "static std::vector<String> __vb_filter(const std::vector<String>& parts, " ++
     "const String& match) \x7b",
   "    std::vector<String> out;",
   "    for (const auto& p : parts) \x7b",
   "        if (p.indexOf(match) != -1) out.push_back(p);",
   "    \x7d",
   "    return out;",
   "\x7d"]

def usesHelpers (s : Sketch) : Bool :=
  (s.globals ++ s.setup ++ s.loop ++ s.procedures.flatMap Procedure.lines).any fun line =>
    Text.contains line.render "__vb_"

def tftHeader : String := "<TFT_eSPI.h>"

def includeLines (s : Sketch) : List String :=
  let implied :=
    if s.symbols.usesTft && !s.includes.any (Text.sameWord tftHeader) then [tftHeader] else []
  (["<Arduino.h>"] ++ (if s.usesHelpers then ["<vector>"] else []) ++ s.includes ++ implied).map
    ("#include " ++ ·)

def globalLines (s : Sketch) : List String :=
  (if s.symbols.usesTft then ["TFT_eSPI tft;"] else []) ++ s.globals.map SketchLine.render

def setupLines (s : Sketch) : List String :=
  ["void setup() \x7b", s!"    delay({s.options.startupDelay});"] ++
    (if s.symbols.usesTft then ["    tft.begin();"] else []) ++
    s.setup.map SketchLine.render ++ ["\x7d"]

def loopLines (s : Sketch) : List String :=
  ["void loop() \x7b"] ++ s.loop.map SketchLine.render ++ ["\x7d"]

def unitLines (s : Sketch) : List String :=
  s.includeLines ++ [""] ++
    (if s.signatures.isEmpty then [] else s.signatures ++ [""]) ++
    (if s.usesHelpers then helperLines ++ [""] else []) ++
    s.globalLines ++ [""] ++
    s.procedures.flatMap (fun p => p.lines.map SketchLine.render ++ [""]) ++
    s.setupLines ++ [""] ++ s.loopLines

def numberedLine (number : Nat) (line : String) : String :=
  let label := "// L" ++ Text.padded 4 number
  if (Text.trim line).isEmpty then label else line ++ " " ++ label

def numberLines (text : String) : String :=
  Text.unlines ((Text.lines text).mapIdx fun k line => numberedLine (k + 1) line)

def render (s : Sketch) : String := numberLines (Text.unlines s.unitLines)

def ofStatements (options : Options) (statements : List Statement) : Sketch :=
  ((empty options).statements statements).finish

end Sketch

structure Output where
  code : String
  events : List Event

namespace Output

def ofProgram (options : Options) (program : Program) : Output :=
  let sketch := Sketch.ofStatements options program.statements
  ⟨sketch.render, program.events ++ sketch.events⟩

def ofSource (options : Options) (source : String) : Output :=
  let program := Program.ofSource source
  let read := program.events ++ [.statementsRead program.statements.length]
  ofProgram options { program with events := read }

end Output

end BasicSketch
