import BasicSketch.Text.Letters
import BasicSketch.Token.Kind

set_option autoImplicit false

/-! Tokens of a line. -/

namespace BasicSketch

structure Token where
  kind : TokenKind
  gap : String
  text : String
  start : Nat
  deriving DecidableEq, Repr

namespace Token

def byteSize : List Char → Nat
  | [] => 0
  | c :: rest => c.utf8Size + byteSize rest

def stop (t : Token) : Nat := t.start + byteSize t.text.toList

def isWord (t : Token) : Bool := t.kind.isWord

def isNamed (name : String) (t : Token) : Bool := t.isWord && Text.sameWord t.text name

def isGap (c : Char) : Bool :=
  c == ' ' || c == '\t' || c == '\r' || c == '\n' || c == '\x0c'

def isHexDigit (c : Char) : Bool :=
  c.isDigit || ('A' ≤ c && c ≤ 'F') || ('a' ≤ c && c ≤ 'f')

def isOctalDigit (c : Char) : Bool := '0' ≤ c && c ≤ '7'

def isBinaryDigit (c : Char) : Bool := c == '0' || c == '1'

def run (p : Char → Bool) (cs : List Char) : Nat := (cs.takeWhile p).length

def exponentLength : List Char → Nat
  | e :: sign :: rest =>
    if e == 'e' || e == 'E' then
      if sign == '+' || sign == '-' then
        let digits := run Char.isDigit rest
        if digits = 0 then 0 else digits + 2
      else
        let digits := run Char.isDigit (sign :: rest)
        if digits = 0 then 0 else digits + 1
    else 0
  | _ => 0

def scanWhole (whole : Nat) (rest : List Char) : TokenKind × Nat :=
  let exponent := exponentLength rest
  if exponent = 0 then (.integer, whole) else (.float, whole + exponent)

def scanNumber (cs : List Char) : TokenKind × Nat :=
  let whole := run Char.isDigit cs
  match cs.drop whole with
  | '.' :: rest =>
    let fraction := run Char.isDigit rest
    if fraction = 0 then (.integer, whole)
    else (.float, whole + 1 + fraction + exponentLength (rest.drop fraction))
  | rest => scanWhole whole rest

def scanDot (rest : List Char) : TokenKind × Nat :=
  let fraction := run Char.isDigit rest
  if fraction = 0 then (.symbol .dot, 1)
  else (.float, 1 + fraction + exponentLength (rest.drop fraction))

def scanAmpersand : List Char → TokenKind × Nat
  | base :: rest =>
    let based (kind : TokenKind) (digit : Char → Bool) : TokenKind × Nat :=
      let digits := run digit rest
      if digits = 0 then (.symbol .ampersand, 1) else (kind, digits + 2)
    if base == 'h' || base == 'H' then based .hex isHexDigit
    else if base == 'o' || base == 'O' then based .octal isOctalDigit
    else if base == 'b' || base == 'B' then based .binary isBinaryDigit
    else (.symbol .ampersand, 1)
  | [] => (.symbol .ampersand, 1)

def scanWord (cs : List Char) : TokenKind × Nat :=
  let length := run Text.isNameChar cs
  match cs.drop length with
  | '$' :: _ => (.identifier, length + 1)
  | _ =>
    match Keyword.ofWord? (String.ofList (cs.take length)) with
    | some word => (.keyword word, length)
    | none => (.identifier, length)

def scanQuote (rest : List Char) : TokenKind × Nat :=
  let inside := run (· != '\x22') rest
  if inside < rest.length then (.text, inside + 2) else (.unknown, inside + 1)

def scanSymbol (c : Char) (rest : List Char) : TokenKind × Nat :=
  match c, rest with
  | '<', '>' :: _ => (.symbol .notEquals, 2)
  | '<', '=' :: _ => (.symbol .lessEquals, 2)
  | '>', '=' :: _ => (.symbol .greaterEquals, 2)
  | '-', '>' :: _ => (.symbol .arrow, 2)
  | ':', ':' :: _ => (.symbol .doubleColon, 2)
  | '<', _ => (.symbol .lessThan, 1)
  | '>', _ => (.symbol .greaterThan, 1)
  | '-', _ => (.symbol .minus, 1)
  | ':', _ => (.symbol .colon, 1)
  | '+', _ => (.symbol .plus, 1)
  | '*', _ => (.symbol .star, 1)
  | '/', _ => (.symbol .slash, 1)
  | '\\', _ => (.symbol .backslash, 1)
  | '^', _ => (.symbol .caret, 1)
  | '=', _ => (.symbol .equals, 1)
  | '(', _ => (.symbol .leftParen, 1)
  | ')', _ => (.symbol .rightParen, 1)
  | '\x7b', _ => (.symbol .leftBrace, 1)
  | '\x7d', _ => (.symbol .rightBrace, 1)
  | '[', _ => (.symbol .leftBracket, 1)
  | ']', _ => (.symbol .rightBracket, 1)
  | ',', _ => (.symbol .comma, 1)
  | ';', _ => (.symbol .semicolon, 1)
  | '#', _ => (.symbol .hash, 1)
  | _, _ => (.unknown, 1)

def scan (c : Char) (rest : List Char) : TokenKind × Nat :=
  if c.isAlpha || c == '_' then scanWord (c :: rest)
  else if c.isDigit then scanNumber (c :: rest)
  else if c == '.' then scanDot rest
  else if c == '&' then scanAmpersand rest
  else if c == '\x22' then scanQuote rest
  else scanSymbol c rest

/-- Tokens of a line from offset `start` on, where `skip` characters still belong to the token
before and `gap` is the white space read so far. -/
def scanFrom : (start : Nat) → (gap : List Char) → (skip : Nat) → List Char → List Token
  | _, _, _, [] => []
  | start, gap, skip + 1, _ :: rest => scanFrom start gap skip rest
  | start, gap, 0, c :: rest =>
    if isGap c then scanFrom (start + c.utf8Size) (gap ++ [c]) 0 rest
    else
      let (kind, length) := scan c rest
      let text := c :: rest.take (length - 1)
      ⟨kind, String.ofList gap, String.ofList text, start⟩ ::
        scanFrom (start + byteSize text) [] (length - 1) rest

def ofLine (line : String) : List Token := scanFrom 0 [] 0 line.toList

def extent : List Token → Nat
  | [] => 0
  | t :: ts => t.gap.length + t.text.length + extent ts

@[simp] theorem extent_nil : extent [] = 0 := rfl

@[simp] theorem extent_cons (t : Token) (ts : List Token) :
    extent (t :: ts) = t.gap.length + t.text.length + extent ts := rfl

@[simp] theorem extent_append (a b : List Token) : extent (a ++ b) = extent a + extent b := by
  induction a with
  | nil => simp
  | cons t rest ih => simp [ih, Nat.add_assoc]

theorem extent_scanFrom_le (start : Nat) (gap : List Char) (skip : Nat) (cs : List Char) :
    extent (scanFrom start gap skip cs) ≤ gap.length + (cs.length - skip) := by
  induction cs generalizing start gap skip with
  | nil => cases skip <;> simp [scanFrom]
  | cons c rest ih =>
    cases skip with
    | succ skip =>
      simp only [scanFrom, List.length_cons]
      exact Nat.le_trans (ih start gap skip) (by omega)
    | zero =>
      simp only [scanFrom]
      split
      · exact Nat.le_trans (ih _ _ 0) (by simp; omega)
      · have tail := ih (start + byteSize (c :: rest.take ((scan c rest).2 - 1))) []
          ((scan c rest).2 - 1)
        simp only [extent_cons, String.length_ofList, List.length_cons, List.length_take]
        simp only [List.length_nil, Nat.zero_add] at tail
        omega

theorem extent_ofLine_le (line : String) : extent (ofLine line) ≤ line.length := by
  simpa [ofLine, String.length_toList] using extent_scanFrom_le 0 [] 0 line.toList

theorem text_ne_empty_of_scanFrom (start : Nat) (gap : List Char) (skip : Nat) (cs : List Char)
    (t : Token) (mem : t ∈ scanFrom start gap skip cs) : 0 < t.text.length := by
  induction cs generalizing start gap skip with
  | nil => cases skip <;> simp [scanFrom] at mem
  | cons c rest ih =>
    cases skip with
    | succ skip => exact ih _ _ _ mem
    | zero =>
      simp only [scanFrom] at mem
      split at mem
      · exact ih _ _ _ mem
      · rcases List.mem_cons.1 mem with rfl | later
        · simp only [String.length_ofList, List.length_cons]
          omega
        · exact ih _ _ _ later

theorem text_length_pos {line : String} {t : Token} (mem : t ∈ ofLine line) :
    0 < t.text.length :=
  text_ne_empty_of_scanFrom 0 [] 0 line.toList t mem

/-- The text from the first of the tokens to the last one, gaps between them included. -/
def slice : List Token → String
  | [] => ""
  | t :: ts => t.text ++ String.join (ts.map (fun t => t.gap ++ t.text))

theorem length_join_gap_text (ts : List Token) :
    (String.join (ts.map (fun t => t.gap ++ t.text))).length = extent ts := by
  induction ts with
  | nil => rfl
  | cons t rest ih => simp [ih]

theorem length_slice_le (ts : List Token) : (slice ts).length ≤ extent ts := by
  cases ts with
  | nil => simp [slice]
  | cons t rest =>
    rw [slice, String.length_append, length_join_gap_text, extent_cons]
    omega

end Token

end BasicSketch
