set_option autoImplicit false

/-! Arguments of the command line: one input file, settings with a value and flags without. -/

namespace BasicSketch

inductive Setting where
  | output | config | mapErrors
  deriving DecidableEq, Repr

inductive Flag where
  | tokens | lint | verbose
  deriving DecidableEq, Repr

structure Arguments where
  files : List String
  settings : List (Setting × String)
  flags : List Flag
  pending : Option Setting
  filesOnly : Bool
  deriving DecidableEq, Repr

namespace Arguments

def empty : Arguments := ⟨[], [], [], none, false⟩

def settingOfName? : String → Option Setting
  | "output" => some .output
  | "config" => some .config
  | "map-errors" => some .mapErrors
  | _ => none

def flagOfName? : String → Option Flag
  | "tokens" => some .tokens
  | "lint" => some .lint
  | "verbose" => some .verbose
  | _ => none

def addFile (a : Arguments) (name : String) : Option Arguments :=
  if name.isEmpty || !a.files.isEmpty then none else some { a with files := [name] }

def addFlag (a : Arguments) (flag : Flag) : Option Arguments :=
  if a.flags.contains flag then none else some { a with flags := flag :: a.flags }

def has (a : Arguments) (setting : Setting) : Bool := a.settings.any (·.1 == setting)

def addValue (a : Arguments) (setting : Setting) (value : String) : Option Arguments :=
  if value.isEmpty || a.has setting then none
  else some { a with settings := (setting, value) :: a.settings, pending := none }

def await (a : Arguments) (setting : Setting) : Option Arguments :=
  if a.has setting then none else some { a with pending := some setting }

def addLong (a : Arguments) (cs : List Char) : Option Arguments :=
  let name := String.ofList (cs.takeWhile (· != '='))
  match cs.dropWhile (· != '=') with
  | [] =>
    match settingOfName? name, flagOfName? name with
    | some setting, _ => a.await setting
    | none, some flag => a.addFlag flag
    | none, none => none
  | _ :: value => (settingOfName? name).bind fun setting => a.addValue setting (String.ofList value)

/-- Reads letters behind one dash. What follows the letter of a setting is its value, with or
without an equals sign before it. -/
def addShort (a : Arguments) : List Char → Option Arguments
  | [] => some a
  | 'v' :: rest => (a.addFlag .verbose).bind (addShort · rest)
  | ['o'] => a.await .output
  | 'o' :: '=' :: value => a.addValue .output (String.ofList value)
  | 'o' :: value => a.addValue .output (String.ofList value)
  | _ => none

def step (a : Arguments) (argument : String) : Option Arguments :=
  if a.filesOnly then a.addFile argument
  else
    match a.pending, argument.toList with
    | none, ['-', '-'] => some { a with filesOnly := true }
    | none, '-' :: '-' :: name => a.addLong name
    | none, '-' :: c :: rest => a.addShort (c :: rest)
    | none, _ => a.addFile argument
    | some _, '-' :: _ :: _ => none
    | some setting, _ => a.addValue setting argument

def value? (a : Arguments) (setting : Setting) : Option String := a.settings.lookup setting

end Arguments

structure Invocation where
  input : String
  output : Option String
  config : Option String
  mapErrors : Option String
  tokens : Bool
  lint : Bool
  verbose : Bool
  deriving DecidableEq, Repr

namespace Invocation

def ofArguments? (arguments : List String) : Option Invocation := do
  let a ← arguments.foldlM Arguments.step Arguments.empty
  guard a.pending.isNone
  let input ← a.files.head?
  return {
    input
    output := a.value? .output
    config := a.value? .config
    mapErrors := a.value? .mapErrors
    tokens := a.flags.contains .tokens
    lint := a.flags.contains .lint
    verbose := a.flags.contains .verbose }

end Invocation

end BasicSketch
