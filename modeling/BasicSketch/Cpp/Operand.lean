import BasicSketch.Expr

set_option autoImplicit false

/-!
Putting C++ expression text together: parentheses where an operand needs them, and the standard
shapes of expressions.
-/

namespace BasicSketch.Cpp

def isOperatorChar (c : Char) : Bool := "+-*/%&|^!<>=?:,".toList.contains c

/-- No blanks and no operators other than the arrow. -/
def lacksOperators : List Char → Bool
  | [] => true
  | '-' :: '>' :: rest => lacksOperators rest
  | c :: rest => !Text.isBlank c && !isOperatorChar c && lacksOperators rest

def enclosed (depth : Int) : List Char → Bool
  | [] => depth == 0
  | c :: rest =>
    if c == '(' then enclosed (depth + 1) rest
    else if c == ')' then
      if depth - 1 == 0 && !rest.isEmpty then false else enclosed (depth - 1) rest
    else enclosed depth rest

/-- The text as an operand: in parentheses unless it needs none. -/
def operand (text : String) : String :=
  let cs := text.toList
  if (!cs.isEmpty && lacksOperators cs) ||
      (cs.head? == some '(' && cs.getLast? == some ')' && enclosed 0 cs) then text
  else "(" ++ text ++ ")"

def receiver (text : String) : String :=
  if (Expr.ofText text).isQuoted then s!"String({text})" else operand text

def indexed (name : String) (indexes : List String) : String :=
  name ++ String.join (indexes.map fun i => "[" ++ i ++ "]")

def called (name : String) (arguments : List String) : String :=
  name ++ "(" ++ ", ".intercalate arguments ++ ")"

def changedCopy (value statement : String) : String :=
  s!"([&]() \x7b String __s = String({value}); {statement} return __s; \x7d())"

def repeated (count fill : String) : String :=
  "([&]() \x7b String __s = \"\"; for (int __i = 0; __i < (" ++ count ++
    "); __i++) __s += " ++ fill ++ "; return __s; \x7d())"

def reversedCopy (value : String) : String :=
  s!"([&]() \x7b String __s = String({value}); String __r = \"\"; " ++
    "for (int __i = __s.length() - 1; __i >= 0; __i--) __r += __s[__i]; return __r; \x7d())"

def clampedDegrees (angle : String) : String := s!"(int)min(180, max(0, (int)({angle})))"

def firstOf (branches : List (String × String)) (last : String) : String :=
  branches.foldr (fun (condition, value) rest => s!"({condition} ? {value} : {rest})") last

end BasicSketch.Cpp
