import BasicSketch.CommandLine.Arguments
import BasicSketch.CommandLine.Files
import BasicSketch.Diagnostic
import BasicSketch.Lint.Check
import BasicSketch.Options.Document
import BasicSketch.Sketch.Render
import BasicSketch.Text.Escaped

set_option autoImplicit false

/-!
Runs of the program: print the tokens of a source, lint it, map the errors of a compiler back to it,
or write its sketch.
-/

namespace BasicSketch

inductive Failure where
  | usage
  | unreadable (path : String) (fault : FileFault)
  | unwritable (path : String) (fault : FileFault)
  | unreadableOptions (path : String) (fault : FileFault)
  | invalidOptions
  deriving DecidableEq, Repr

namespace Failure

def message : Failure → String
  | .usage => "usage: FILE [-o FILE] [--config FILE] [--tokens] [--lint] [--map-errors FILE] [-v]"
  | .unreadable path fault => s!"error reading '{path}': {fault.message}"
  | .unwritable path fault => s!"error writing '{path}': {fault.message}"
  | .unreadableOptions path fault => s!"cannot read {path}: {fault.message}"
  | .invalidOptions => "invalid configuration"

def exitCode : Failure → Nat
  | .usage => 2
  | _ => 1

end Failure

structure Outcome where
  exitCode : Nat
  printed : List String
  written : Option (String × String)
  events : List Event

namespace Outcome

def print (lines : List String) : Outcome := ⟨0, lines, none, []⟩

end Outcome

namespace Invocation

def tokenLine (t : Token) : String :=
  "      " ++ Text.padLeft 3 ' ' (toString t.start) ++ ".." ++ Text.padRight 3 (toString t.stop) ++
    " " ++ Text.padRight 20 t.kind.name ++ " " ++ Text.quoted t.text

def tokenLines (source : String) : List String :=
  (LogicalLine.ofSource source).flatMap fun line =>
    (Text.padLeft 4 ' ' (toString line.number) ++ ": " ++ line.text) ::
      (Token.ofLine line.text).map tokenLine

def options (i : Invocation) (files : Files) : Except Failure Options :=
  match i.config with
  | none => .ok Options.standard
  | some path =>
    match files.read path with
    | .error fault => .error (.unreadableOptions path fault)
    | .ok text => (Options.ofToml? text).elim (.error .invalidOptions) .ok

def outputPath (i : Invocation) : String := i.output.getD (Path.withExtension "cpp" i.input)

def readFile (files : Files) (path : String) : Except Failure String :=
  (files.read path).mapError (.unreadable path)

def mapped (i : Invocation) (errors sketch : String) : List String :=
  let map := LineMap.ofText sketch
  (Diagnostic.ofOutput errors (Path.fileName i.outputPath) sketch).map (·.render map)

def run (i : Invocation) (files : Files) : Except Failure Outcome := do
  let source ← readFile files i.input
  if i.tokens then return .print (tokenLines source)
  else if i.lint then return .print ((Lint.findings source).map (·.render i.input))
  else
    let output := Output.ofSource (← i.options files) source
    match i.mapErrors with
    | some path =>
      let lines := i.mapped (← readFile files path) output.code
      return ⟨if lines.isEmpty then 0 else 1, lines, none, output.events⟩
    | none =>
      match files.writeFault? i.outputPath with
      | some fault => .error (.unwritable i.outputPath fault)
      | none => return ⟨0, [], some (i.outputPath, output.code), output.events⟩

def sources (i : Invocation) : List String := i.input :: (i.config.toList ++ i.mapErrors.toList)

end Invocation

end BasicSketch
