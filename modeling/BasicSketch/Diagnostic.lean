import BasicSketch.LineMap
import BasicSketch.Text.WordCharacter

set_option autoImplicit false

/-! Compiler diagnostics. -/

namespace BasicSketch

inductive Severity where
  | fatalError | error | warning | note
  deriving DecidableEq, Repr

namespace Severity

def label : Severity → String
  | .fatalError => "fatal error"
  | .error => "error"
  | .warning => "warning"
  | .note => "note"

def all : List Severity := [.fatalError, .error, .warning, .note]

end Severity

structure Report where
  severity : Severity
  message : String
  deriving DecidableEq, Repr

namespace Report

def ofChars? (cs : List Char) : Option Report :=
  Severity.all.findSome? fun severity =>
    ((severity.label ++ ": ").toList.isPrefixOf? cs).map fun rest => ⟨severity, String.ofList rest⟩

def ofLine? (line : String) : Option Report := ofChars? (Text.dropBlanks line.toList)

end Report

structure Location where
  file : String
  line : Nat
  deriving DecidableEq, Repr

namespace Location

def render (l : Location) : String := l.file ++ ":" ++ toString l.line

def dropColumn (cs : List Char) : List Char :=
  match cs with
  | ':' :: rest =>
    if (rest.takeWhile Text.isDecimalDigit).isEmpty then cs
    else rest.dropWhile Text.isDecimalDigit
  | _ => cs

def position? (cs : List Char) : Option (List Char × Report) :=
  match cs with
  | ':' :: rest =>
    let digits := rest.takeWhile Text.isDecimalDigit
    if digits.isEmpty then none
    else
      match dropColumn (rest.dropWhile Text.isDecimalDigit) with
      | ':' :: ' ' :: report => (Report.ofChars? report).map fun r => (digits, r)
      | _ => none
  | _ => none

def split? : List Char → Option (List Char × List Char × Report)
  | [] => none
  | c :: rest =>
    match position? rest with
    | some found => some ([c], found)
    | none => (split? rest).map fun (file, found) => (c :: file, found)

def ofLine? (line : String) : Option (Location × Report) := do
  let (file, digits, report) ← split? line.toList
  let number ← Text.readWithin? Text.maxLong digits
  return (⟨String.ofList file, number⟩, report)

end Location

namespace Declared

def types : List String :=
  ["int", "float", "double", "long", "char", "bool", "auto", "String", "uint8_t", "uint16_t",
   "uint32_t"]

def isNameStart (c : Char) : Bool := c.isAlpha || c == '_'

def isQuote (c : Char) : Bool := ['\x27', '\x22', '\x60', '‘'].contains c

def name? (cs : List Char) : Option String :=
  let cs := match cs with
    | c :: rest => if isQuote c then rest else cs
    | [] => []
  match cs with
  | c :: _ => if isNameStart c then some (String.ofList (cs.takeWhile Text.isNameChar)) else none
  | [] => none

def redeclared? : List Char → Option String
  | [] => none
  | c :: rest =>
    (("redeclaration of ".toList.isPrefixOf? (c :: rest)).bind name?).or (redeclared? rest)

def isGap (c : Char) : Bool := Text.isBlank c || c == '*' || c == '&'

def beginsWith (name : String) (cs : List Char) : Bool :=
  types.any fun type =>
    match type.toList.isPrefixOf? cs with
    | none => false
    | some rest =>
      !(rest.takeWhile isGap).isEmpty &&
        match name.toList.isPrefixOf? (rest.dropWhile isGap) with
        | none => false
        | some after => !after.head?.any Text.isWordCharacter

def within (name : String) (inWord : Bool) : List Char → Bool
  | [] => false
  | c :: rest =>
    (!inWord && beginsWith name (c :: rest)) || within name (Text.isWordCharacter c) rest

/-- What stands before the first two slashes. -/
def code : List Char → List Char
  | [] => []
  | '/' :: '/' :: _ => []
  | c :: rest => c :: code rest

def onLine (name line : String) : Bool := within name false (code line.toList)

end Declared

structure Diagnostic where
  line : Nat
  severity : Severity
  message : String
  origin : String
  ambiguous : Bool
  deriving DecidableEq, Repr

namespace Diagnostic

/-- A report of a repeated declaration belongs to the first line that declares the name. -/
def relocated? (sketch : String) (l : Location) (r : Report) : Option Diagnostic := do
  let name ← Declared.redeclared? r.message.toList
  let index ← (Text.lines sketch).findIdx? (Declared.onLine name)
  return ⟨index + 1, r.severity, r.message, l.render, true⟩

/-- A report about the main file stays where it is; of the others those are kept that can be found
in the sketch. -/
def ofReport? (mainFile sketch : String) (l : Location) (r : Report) : Option Diagnostic :=
  if Text.endsWith l.file mainFile then
    some ⟨l.line, r.severity, r.message, l.render, false⟩
  else relocated? sketch l r

def ofLines (mainFile sketch : String) (last : Option Location) :
    List String → List Diagnostic
  | [] => []
  | line :: rest =>
    match Location.ofLine? line with
    | some (location, report) =>
      (ofReport? mainFile sketch location report).toList ++
        ofLines mainFile sketch (some location) rest
    | none =>
      let here := do
        let report ← Report.ofLine? line
        ofReport? mainFile sketch (← last) report
      here.toList ++ ofLines mainFile sketch last rest

def ofOutput (output mainFile sketch : String) : List Diagnostic :=
  ofLines mainFile sketch none (Text.lines output)

def render (d : Diagnostic) (map : LineMap) : String :=
  s!"{map.sourceLine d.line}:{d.severity.label}: {d.message}" ++
    (if d.ambiguous then " (approximate location)" else "")

end Diagnostic

end BasicSketch
