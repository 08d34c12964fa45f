import BasicSketch.Phrase.Call
import BasicSketch.Phrase.Control
import BasicSketch.Phrase.Procedure

set_option autoImplicit false

/-! The form of a line, read from its text alone. -/

namespace BasicSketch

inductive LineForm where
  | action (action : Action)
  | malformed (text : String) (error : LineError)
  | untranslated (text : String) (error : LineError)
  | every (interval : Expr)
  | inlineIf (condition : Expr) (thenForm : LineForm)
  | inlineIfElse (condition : Expr) (thenForm elseForm : LineForm)
  | danglingElse (text : String) (thenForm : LineForm)
  deriving DecidableEq, Repr

namespace LineForm

open Reader Phrase

def ofReader (x : Reader Action) (ts : List Token) : Except LineError LineForm :=
  (x.value ts).map .action

def ofHeader (text : String) (kind : ProcedureKind) (ts : List Token) : LineForm :=
  match (header kind).value ts with
  | .ok header => .action (.procedureStart header)
  | .error e => .malformed text e

def ofVisible (text : String) (ts : List Token) : Except LineError LineForm :=
  match ts with
  | [] => ofReader (declarationLine .dim) []
  | t :: rest =>
    match t.kind with
    | .keyword .Sub => .ok (ofHeader text .sub rest)
    | .keyword .Function => .ok (ofHeader text .function rest)
    | .keyword .Const => ofReader constant rest
    | .keyword .TypeWord => ofReader typeStart rest
    | .keyword .Enum => ofReader enumStart rest
    | .keyword .Dim => ofReader (declarationLine .dim) rest
    | _ => ofReader (declarationLine .dim) (t :: rest)

def ofCommand (first : Token) (rest : List Token) : Except LineError LineForm :=
  let word := Text.lower first.text
  let fixed? : Option (Reader Action) :=
    match rest with
    | [] => command? word
    | t :: _ => if t.kind == .symbol .equals || t.kind.isMember then none else command? word
  match fixed? with
  | some reader => ofReader reader rest
  | none =>
    match assignment? (first :: rest) with
    | some result => result.map .action
    | none => ofReader call (first :: rest)
where
  command? (word : String) : Option (Reader Action) :=
    match BoardFunction.ofName? word with
    | some function => some (board function first.start)
    | none =>
      match DrawCommand.ofName? word with
      | some command => some (draw command first.start)
      | none => (SpriteCommand.ofName? word).map (sprite · first.start)

def ofSingle? (word : String) : Option Action :=
  match word with
  | "endif" => some .endIf
  | "timer" => some (.clock .timer)
  | "now" => some (.clock .now)
  | "date" => some (.clock .date)
  | "time" => some (.clock .time)
  | _ => none

def ofIdentifier (text : String) (first : Token) (rest : List Token) :
    Except LineError LineForm :=
  let word := Text.lower first.text
  let second := rest.head?
  let assigns := second.any (·.kind == .symbol .equals)
  if rest.length == 1 && second.any (·.kind == .symbol .colon) then
    .ok (.action (.label first.text))
  else if word == "option" then ofReader (option text) rest
  else if word == "global" && second.any Token.isWord then ofReader (declarationLine .dim) rest
  else if word == "every" then (Phrase.every.value rest).map .every
  else if word == "inputbox" && !assigns then .ok (.action .inputBox)
  else if word == "msgbox" && !assigns then ofReader messageBox rest
  else if word == "on" && second.any (Token.isNamed "error") then .ok (.action (.unsupported text))
  else if ["resume", "property", "declare", "redim", "erase"].contains word then
    .ok (.action (.unsupported text))
  else if word == "randomize" then ofReader randomize rest
  else if word == "doevents" then ofReader doEvents rest
  else
    match rest, ofSingle? word with
    | [], some known => .ok (.action known)
    | _, _ => ofCommand first rest

def ofKeyword (text : String) (word : Keyword) (first : Token) (rest : List Token) :
    Except LineError LineForm :=
  match word with
  | .Public | .Private => ofVisible text rest
  | .Sub => .ok (ofHeader text .sub rest)
  | .Function => .ok (ofHeader text .function rest)
  | .End => ofReader ending rest
  | .Const => ofReader constant rest
  | .Dim => ofReader (declarationLine .dim) rest
  | .Static => ofReader (declarationLine .static) rest
  | .TypeWord => ofReader typeStart rest
  | .Enum => ofReader enumStart rest
  | .Exit => ofReader exit rest
  | .Continue => ofReader continueLoop rest
  | .Goto => ofReader goto rest
  | .Return => ofReader returnValue rest
  | .With => ofReader withObject rest
  | .Do => (loopTest.value rest).map (fun test => .action (.doLoop test))
  | .Loop => (loopTest.value rest).map (fun test => .action (.loopEnd test))
  | .For => ofReader forLoop rest
  | .Next => .ok (.action .next)
  | .ElseIf => ofReader elseIf rest
  | .Else => ofReader elseBlock rest
  | .While => ofReader whileLoop rest
  | .Wend => ofReader wend rest
  | .Select => ofReader select rest
  | .Case => ofReader caseOf rest
  | .Call => ofReader call rest
  | .Set | .Let => (assignment rest).map .action
  | _ => .error (errorHere "statement" (first :: rest))

def ofTokens (text : String) (first : Token) (rest : List Token) : Except LineError LineForm :=
  match first.kind with
  | .symbol .hash => ofReader includeFile rest
  | .identifier => ofIdentifier text first rest
  | .keyword word => ofKeyword text word first rest
  | _ => .error (errorHere "statement" (first :: rest))

theorem extent_le_of_suffix {a b : List Token} (h : a <:+ b) : Token.extent a ≤ Token.extent b := by
  obtain ⟨before, rfl⟩ := h
  simp

def branchText (ts : List Token) : String := Text.trim (Token.slice ts)

theorem length_branchText_le (ts : List Token) : (branchText ts).length ≤ Token.extent ts :=
  Nat.le_trans (Text.length_trim_le _) (Token.length_slice_le ts)

theorem length_branchText_lt {text : String} {first : Token} {rest branch : List Token}
    (line : Token.ofLine text = first :: rest)
    (within : Token.extent branch ≤ Token.extent rest) :
    (branchText branch).length < text.length := by
  have whole := Token.extent_ofLine_le text
  have mem : first ∈ Token.ofLine text := by simp [line]
  have here := Token.text_length_pos mem
  have short := length_branchText_le branch
  rw [line, Token.extent_cons] at whole
  omega

/-- The branches of a single-line `If`: what stands before its first `Else` at top level, and the
rest from there on. -/
def splitElse (ts : List Token) : List Token × List Token :=
  Token.splitAtTop (· == .keyword .Else) 0 ts

theorem extent_splitElse (ts : List Token) :
    Token.extent (splitElse ts).1 + Token.extent (splitElse ts).2 = Token.extent ts := by
  rw [← Token.extent_append, splitElse, Token.splitAtTop_append]

def ofText (text : String) : LineForm :=
  match _line : Token.ofLine text with
  | [] => .untranslated text (.lineEnd "statement")
  | first :: rest =>
    if first.kind == .keyword .If then
      match _read : condition.run rest with
      | .error e => .untranslated text e
      | .ok (condition, []) => .action (.ifBlock condition)
      | .ok (condition, [_]) => .action (.ifBlock condition)
      | .ok (condition, _ :: t :: ts) =>
        match _parts : splitElse (t :: ts) with
        | ([], _) => .untranslated text (errorHere "statement after THEN" (t :: ts))
        | (thenPart, []) => .inlineIf condition (ofText (branchText thenPart))
        | (thenPart, [_]) => .danglingElse text (ofText (branchText thenPart))
        | (thenPart, _ :: elsePart) =>
          .inlineIfElse condition (ofText (branchText thenPart)) (ofText (branchText elsePart))
    else
      match ofTokens text first rest with
      | .ok form => form
      | .error e => .untranslated text e
termination_by text.length
decreasing_by
  all_goals
    apply length_branchText_lt _line
    have left := extent_le_of_suffix (suffix_of_run _read)
    have both := extent_splitElse (t :: ts)
    simp only [_parts, Token.extent_cons, Token.extent_nil] at left both
    omega

end LineForm

end BasicSketch
