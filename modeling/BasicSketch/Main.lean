import BasicSketch.CommandLine.Run
import BasicSketch.Text.Lines

set_option autoImplicit false

namespace BasicSketch

/-- Some calls of the system give the number of an error, others give it negated. -/
def isError (number code : UInt32) : Bool := code == number || code == 0 - number

def fault : IO.Error → FileFault
  | .noFileOrDirectory .. | .noSuchThing .. => .missing
  | .inappropriateType _ code _ => if isError 20 code then .notDirectory else .directory
  | e@(.invalidArgument _ code _) =>
    if isError 36 code then .nameTooLong else .other (toString e)
  | e => .other (toString e)

def readInput (path : String) : IO (String × Except FileFault String) := do
  try
    return (path, .ok (← IO.FS.readFile path))
  catch e =>
    return (path, .error (fault e))

def writeOutput (path content : String) : IO (Option FileFault) := do
  try
    IO.FS.writeFile path content
    return none
  catch e =>
    return some (fault e)

def complain (failure : Failure) : IO UInt32 := do
  IO.eprintln failure.message
  return UInt32.ofNat failure.exitCode

def execute (i : Invocation) : IO UInt32 := do
  let inputs ← i.sources.mapM readInput
  let read (path : String) := (inputs.lookup path).getD (.error .missing)
  match i.run ⟨read, fun _ => none⟩ with
  | .error failure => complain failure
  | .ok outcome =>
    if i.verbose then outcome.events.forM fun e => IO.eprintln e.render
    IO.print (Text.unlines outcome.printed)
    match outcome.written with
    | none => return UInt32.ofNat outcome.exitCode
    | some (path, content) =>
      match ← writeOutput path content with
      | none => return UInt32.ofNat outcome.exitCode
      | some fault => complain (.unwritable path fault)

end BasicSketch

def main (arguments : List String) : IO UInt32 :=
  match BasicSketch.Invocation.ofArguments? arguments with
  | some i => BasicSketch.execute i
  | none => BasicSketch.complain .usage
