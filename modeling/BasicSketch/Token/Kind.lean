import BasicSketch.Text.Letters

set_option autoImplicit false

/-!
Kinds of tokens: reserved words, symbols, literals, identifiers, and characters that belong to none
of these.
-/

namespace BasicSketch

inductive Keyword where
  | If | Then | Else | ElseIf | End | For | Each | In | To | Step | Next | While | Wend | Do
  | Loop | Until | Select | Case | Is | Goto | Return | Exit | Continue | With | Dim | Static
  | Const | Public | Private | As | TypeWord | Enum | Sub | Function | Optional | ByRef | ByVal
  | Let | Set | Call | New | And | Or | Not | Xor | Mod
  deriving DecidableEq, Repr

namespace Keyword

def name : Keyword → String
  | .If => "If"
  | .Then => "Then"
  | .Else => "Else"
  | .ElseIf => "ElseIf"
  | .End => "End"
  | .For => "For"
  | .Each => "Each"
  | .In => "In"
  | .To => "To"
  | .Step => "Step"
  | .Next => "Next"
  | .While => "While"
  | .Wend => "Wend"
  | .Do => "Do"
  | .Loop => "Loop"
  | .Until => "Until"
  | .Select => "Select"
  | .Case => "Case"
  | .Is => "Is"
  | .Goto => "Goto"
  | .Return => "Return"
  | .Exit => "Exit"
  | .Continue => "Continue"
  | .With => "With"
  | .Dim => "Dim"
  | .Static => "Static"
  | .Const => "Const"
  | .Public => "Public"
  | .Private => "Private"
  | .As => "As"
  | .TypeWord => "Type"
  | .Enum => "Enum"
  | .Sub => "Sub"
  | .Function => "Function"
  | .Optional => "Optional"
  | .ByRef => "ByRef"
  | .ByVal => "ByVal"
  | .Let => "Let"
  | .Set => "Set"
  | .Call => "Call"
  | .New => "New"
  | .And => "And"
  | .Or => "Or"
  | .Not => "Not"
  | .Xor => "Xor"
  | .Mod => "Mod"

def spellings : List (String × Keyword) :=
  [("if", If), ("then", Then), ("else", Else), ("elseif", ElseIf), ("end", End), ("for", For),
  ("each", Each), ("in", In), ("to", To), ("step", Step), ("next", Next), ("while", While),
  ("wend", Wend), ("do", Do), ("loop", Loop), ("until", Until), ("select", Select),
  ("case", Case), ("is", Is), ("goto", Goto), ("return", Return), ("exit", Exit),
  ("continue", Continue), ("with", With), ("dim", Dim), ("static", Static), ("const", Const),
  ("public", Public), ("private", Private), ("as", As), ("type", TypeWord), ("enum", Enum),
  ("sub", Sub), ("function", Function), ("optional", Optional), ("byref", ByRef),
  ("byval", ByVal), ("let", Let), ("set", Set), ("call", Call), ("new", New), ("and", And),
  ("or", Or), ("not", Not), ("xor", Xor), ("mod", Mod)]

def ofWord? (word : String) : Option Keyword := spellings.lookup (Text.lower word)

end Keyword

inductive Symbol where
  | plus | minus | star | slash | backslash | caret | equals | notEquals | lessThan | greaterThan
  | lessEquals | greaterEquals | ampersand | arrow | doubleColon | leftParen | rightParen
  | leftBrace | rightBrace | leftBracket | rightBracket | comma | semicolon | colon | dot | hash
  deriving DecidableEq, Repr

namespace Symbol

def name : Symbol → String
  | .plus => "Plus"
  | .minus => "Minus"
  | .star => "Star"
  | .slash => "Slash"
  | .backslash => "Backslash"
  | .caret => "Caret"
  | .equals => "Equals"
  | .notEquals => "NotEquals"
  | .lessThan => "LessThan"
  | .greaterThan => "GreaterThan"
  | .lessEquals => "LessEquals"
  | .greaterEquals => "GreaterEquals"
  | .ampersand => "Ampersand"
  | .arrow => "Arrow"
  | .doubleColon => "DoubleColon"
  | .leftParen => "LeftParen"
  | .rightParen => "RightParen"
  | .leftBrace => "LeftBrace"
  | .rightBrace => "RightBrace"
  | .leftBracket => "LeftBracket"
  | .rightBracket => "RightBracket"
  | .comma => "Comma"
  | .semicolon => "Semicolon"
  | .colon => "Colon"
  | .dot => "Dot"
  | .hash => "Hash"

end Symbol

inductive TokenKind where
  | keyword (word : Keyword)
  | symbol (symbol : Symbol)
  | integer
  | hex
  | octal
  | binary
  | float
  | text
  | identifier
  | unknown
  deriving DecidableEq, Repr

namespace TokenKind

def name : TokenKind → String
  | .keyword k => k.name
  | .symbol s => s.name
  | .integer => "IntegerLiteral"
  | .hex => "HexLiteral"
  | .octal => "OctalLiteral"
  | .binary => "BinaryLiteral"
  | .float => "FloatLiteral"
  | .text => "StringLiteral"
  | .identifier => "Identifier"
  | .unknown => "Unknown"

def display : TokenKind → String
  | .keyword .If => "IF"
  | .keyword .Then => "THEN"
  | .keyword .Else => "ELSE"
  | .keyword .End => "END"
  | .keyword .For => "FOR"
  | .keyword .To => "TO"
  | .keyword .As => "AS"
  | .symbol .plus => "+"
  | .symbol .minus => "-"
  | .symbol .equals => "="
  | .symbol .leftParen => "("
  | .symbol .rightParen => ")"
  | .symbol .comma => ","
  | kind => kind.name

def isKeyword : TokenKind → Bool
  | .keyword _ => true
  | _ => false

def isWord : TokenKind → Bool
  | .keyword _ | .identifier => true
  | _ => false

def isMember : TokenKind → Bool
  | .symbol .dot | .symbol .arrow | .symbol .doubleColon => true
  | _ => false

end TokenKind

end BasicSketch
