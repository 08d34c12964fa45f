import BasicSketch.Cpp.Operand
import BasicSketch.Display

set_option autoImplicit false

/-! Built-in functions. -/

namespace BasicSketch.Cpp

def textCall? (name : String) (arguments : List String) : Option String :=
  match name, arguments with
  | "left", [s, n] => some s!"{receiver s}.substring(0, {n})"
  | "right", [s, n] => some s!"{receiver s}.substring({receiver s}.length() - {operand n})"
  | "mid", [s, n] => some s!"{receiver s}.substring({operand n} - 1)"
  | "mid", [s, n, m] =>
    some s!"{receiver s}.substring({operand n} - 1, {operand n} - 1 + {operand m})"
  | "len", [s] => some s!"{receiver s}.length()"
  | "instr", [s, t] => some s!"({receiver s}.indexOf({t}) + 1)"
  | "instr", [n, s, t] => some s!"({receiver s}.indexOf({t}, {operand n} - 1) + 1)"
  | "instrrev", [s, t] => some s!"({receiver s}.lastIndexOf({t}) + 1)"
  | "strcomp", [s, t] => some s!"({receiver s}.compareTo({t}))"
  | "substring", [s, n, m] =>
    some s!"{receiver s}.substring({operand n}, {operand n} + {operand m})"
  | _, _ => none

def fillText (fill : String) : String :=
  match fill.toList with
  | ['\x22', c, '\x22'] => if c == '\x27' then fill else String.ofList ['\x27', c, '\x27']
  | _ => fill

def copyCall? (name : String) (arguments : List String) : Option String :=
  match name, arguments with
  | "replace", [s, a, b] | "strreplace", [s, a, b] =>
    some (changedCopy s s!"__s.replace({a}, {b});")
  | "trim", [s] | "ltrim", [s] | "rtrim", [s] => some (changedCopy s "__s.trim();")
  | "ucase", [s] | "upper", [s] => some (changedCopy s "__s.toUpperCase();")
  | "lcase", [s] | "lower", [s] => some (changedCopy s "__s.toLowerCase();")
  | "strreverse", [s] => some (reversedCopy s)
  | "space", [n] => some (repeated n "\x27 \x27")
  | "string", [n, fill] => some (repeated n (fillText fill))
  | _, _ => none

def conversionCall? (name : String) (arguments : List String) : Option String :=
  match name, arguments with
  | "cstr", [x] => some s!"String({x})"
  | "cint", [x] => some s!"atoi(String({x}).c_str())"
  | "clng", [x] => some s!"atol(String({x}).c_str())"
  | "cdbl", [x] | "csng", [x] | "val", [x] => some s!"atof(String({x}).c_str())"
  | "cbyte", [x] => some s!"(byte)({x})"
  | "cbool", [x] => some s!"(bool)({x})"
  | "hex", [x] | "hex$", [x] => some s!"String({x}, HEX)"
  | "oct", [x] | "oct$", [x] => some s!"String({x}, OCT)"
  | "chr", [x] | "chr$", [x] => some s!"String((char)({x}))"
  | "asc", [x] => some s!"(int)({receiver x}.charAt(0))"
  | "isnumeric", [x] => some s!"(String({x}).toInt() != 0 || String({x}) == \"0\")"
  | "isempty", [x] => some s!"(String({x}).length() == 0)"
  | "isnothing", [x] => some s!"(({x}) == nullptr)"
  | _, _ => none

def choices (index : String) (first : Nat) : List String → List (String × String)
  | [] => []
  | value :: rest => (s!"{index} == {first}", value) :: choices index (first + 1) rest

def pairs : List String → List (String × String)
  | condition :: value :: rest => (condition, value) :: pairs rest
  | _ => []

def selectionCall? (name : String) (arguments : List String) : Option String :=
  match name, arguments with
  | "iif", [c, a, b] => some s!"({c} ? {a} : {b})"
  | "choose", index :: first :: rest =>
    let values := first :: rest
    some (firstOf (choices (operand index) 1 values.dropLast) (values.getLast?.getD ""))
  | "switch", condition :: value :: rest =>
    if rest.length % 2 == 0 then
      let branches := pairs (condition :: value :: rest)
      some (firstOf branches.dropLast ((branches.getLast?.map Prod.snd).getD ""))
    else none
  | _, _ => none

def bitCall? (name : String) (arguments : List String) : Option String :=
  match name, arguments with
  | "bitread", [x, n] => some s!"(({operand x} >> {operand n}) & 1)"
  | "bitwrite", [x, n, b] =>
    let set := s!"({operand x} | (1 << {operand n}))"
    let clear := s!"({operand x} & ~(1 << {operand n}))"
    some s!"({operand b} ? {set} : {clear})"
  | "bitset", [x, n] => some s!"({operand x} | (1 << {operand n}))"
  | "bitclear", [x, n] => some s!"({operand x} & ~(1 << {operand n}))"
  | "bitshiftleft", [x, n] => some s!"({operand x} << {operand n})"
  | "bitshiftright", [x, n] => some s!"({operand x} >> {operand n})"
  | _, _ => none

def mathCall? (name : String) (arguments : List String) : Option String :=
  match name, arguments with
  | "sqr", [x] => some s!"sqrt({x})"
  | "atn", [x] => some s!"atan({x})"
  | "fix", [x] => some s!"trunc({x})"
  | "sgn", [x] => some s!"((({x}) > 0) ? 1 : ((({x}) < 0) ? -1 : 0))"
  | "rnd", [] | "rnd", [_] => some "random(0, 32767)"
  | _, [x] =>
    if ["int", "sin", "cos", "tan", "abs", "log", "exp", "round"].contains name then
      some s!"{name}({x})"
    else none
  | _, _ => none

def listCall? (name : String) (arguments : List String) : Option String :=
  match name, arguments with
  | "split", [s, t] => some s!"__vb_split(String({s}), String({t}))"
  | "join", [s, t] => some s!"__vb_join({s}, String({t}))"
  | "filter", [s, t] => some s!"__vb_filter({s}, String({t}))"
  | _, _ => none

def boardCall? (name : String) (arguments : List String) : Option String :=
  match name, arguments with
  | "digitalread", [x] => some s!"digitalRead({x})"
  | "analogread", [x] => some s!"analogRead({x})"
  | "millis", [] | "timer", [] => some "millis()"
  | "micros", [] => some "micros()"
  | "serialavailable", [] => some "Serial.available()"
  | "serialread", [] => some "Serial.read()"
  | "freeram", [] => some "ESP.getFreeHeap()"
  | _, _ => none

def pulseBetween (low high angle : String) : String :=
  s!"(int)(({low}) + (({high}) - ({low})) * (({angle}) / 180.0))"

def pulse (angle : String) : String := s!"(int)(1000 + (({angle}) * (1000.0 / 180.0)))"

def servoCall? (name : String) (arguments : List String) : Option String :=
  match name, arguments with
  | "servo_clamp", [x] => some (clampedDegrees x)
  | "servo_deg2pulse", [x] => some (pulse x)
  | "servo_deg2pulse", [x, low, high] => some (pulseBetween low high x)
  | "servo_clamp_deg2pulse", [x] => some (pulse (clampedDegrees x))
  | "servo_clamp_deg2pulse", [x, low, high] => some (pulseBetween low high (clampedDegrees x))
  | _, _ => none

def rgb (onPanel : Bool) (r g b : String) : String :=
  if onPanel then s!"tft.color565({r}, {g}, {b})"
  else s!"((({r} & 0xF8) << 8) | (({g} & 0xFC) << 3) | ({b} >> 3))"

def plainCall? (name : String) (arguments : List String) : Option String :=
  textCall? name arguments <|> copyCall? name arguments <|> conversionCall? name arguments <|>
    selectionCall? name arguments <|> bitCall? name arguments <|> mathCall? name arguments <|>
    listCall? name arguments <|> boardCall? name arguments <|> servoCall? name arguments

/-- Named constants and words that stand for an operator. -/
def constants : List (String × String) :=
  [("true", "true"), ("vbtrue", "true"), ("false", "false"), ("vbfalse", "false"),
   ("vbcr", "\"\\r\""), ("vblf", "\"\\n\""), ("vbcrlf", "\"\\r\\n\""), ("vbtab", "\"\\t\""),
   ("vbnullchar", "\"\\0\""), ("vbnullstring", "\"\""), ("tau", "(2.0 * PI)"),
   ("deg2rad", "(PI / 180.0)"), ("rad2deg", "(180.0 / PI)"), ("inf", "INFINITY"),
   ("nothing", "nullptr"), ("bitor", "|"), ("bitand", "&"), ("timer", "millis()")]

end BasicSketch.Cpp
