set_option autoImplicit false

/-! Strings of an options file, read from behind their opening quotes. -/

namespace BasicSketch.Toml

def isTextChar (c : Char) : Bool := c == '\t' || (' ' ≤ c && c != '\x7f')

def isHexDigit (c : Char) : Bool :=
  c.isDigit || ('a' ≤ c && c ≤ 'f') || ('A' ≤ c && c ≤ 'F')

def digitValue (c : Char) : Nat :=
  if c.isDigit then c.toNat - 48
  else if c.isLower then c.toNat - 87
  else c.toNat - 55

def digitsValue (base : Nat) (ds : List Char) : Nat :=
  ds.foldl (fun n c => base * n + digitValue c) 0

def charOfCode? (n : Nat) : Option Char := if n.isValidChar then some (Char.ofNat n) else none

def codePoint? (width : Nat) (cs : List Char) : Option (Char × List Char) :=
  let digits := cs.take width
  if digits.length == width && digits.all isHexDigit then
    (charOfCode? (digitsValue 16 digits)).map fun c => (c, cs.drop width)
  else none

def escape? : List Char → Option (Char × List Char)
  | 'b' :: rest => some ('\x08', rest)
  | 't' :: rest => some ('\t', rest)
  | 'n' :: rest => some ('\n', rest)
  | 'f' :: rest => some ('\x0c', rest)
  | 'r' :: rest => some ('\r', rest)
  | '\x22' :: rest => some ('\x22', rest)
  | '\\' :: rest => some ('\\', rest)
  | 'u' :: rest => codePoint? 4 rest
  | 'U' :: rest => codePoint? 8 rest
  | _ => none

theorem length_codePoint? {width : Nat} {cs rest : List Char} {c : Char}
    (read : codePoint? width cs = some (c, rest)) : rest.length ≤ cs.length := by
  simp only [codePoint?] at read
  split at read
  · obtain ⟨code, _, same⟩ := Option.map_eq_some_iff.1 read
    rw [← (Prod.mk.inj same).2, List.length_drop]
    omega
  · simp at read

theorem length_escape? {cs rest : List Char} {c : Char} (read : escape? cs = some (c, rest)) :
    rest.length ≤ cs.length := by
  unfold escape? at read
  split at read
  case h_8 | h_9 => have := length_codePoint? read; simp only [List.length_cons]; omega
  all_goals simp at read
  all_goals simp [← read.2]

def basic : List Char → Option (List Char × List Char)
  | [] => none
  | c :: rest =>
    if c == '\x22' then some ([], rest)
    else if c == '\\' then
      match _escape : escape? rest with
      | none => none
      | some (escaped, rest') => (basic rest').map fun (text, after) => (escaped :: text, after)
    else if isTextChar c then (basic rest).map fun (text, after) => (c :: text, after)
    else none
termination_by cs => cs.length
decreasing_by
  · have := length_escape? _escape
    simp only [List.length_cons]
    omega
  · simp

def literal : List Char → Option (List Char × List Char)
  | [] => none
  | c :: rest =>
    if c == '\x27' then some ([], rest)
    else if isTextChar c then (literal rest).map fun (text, after) => (c :: text, after)
    else none

inductive QuoteRun where
  | inside
  | closing (kept : Nat)
  | tooMany

def quoteRun (quote : Char) (cs : List Char) : QuoteRun :=
  let length := (cs.takeWhile (· == quote)).length
  if length < 3 then .inside
  else if length < 6 then .closing (length - 3)
  else .tooMany

def dropFirstBreak : List Char → List Char
  | '\n' :: rest => rest
  | cs => cs

def isSpace (c : Char) : Bool := c == ' ' || c == '\t'

/-- What follows a backslash at the end of a line: the break and all blanks after it are left
out. -/
def afterLineEnd? (cs : List Char) : Option (List Char) :=
  match cs.dropWhile isSpace with
  | '\n' :: rest => some (rest.dropWhile fun c => isSpace c || c == '\n')
  | _ => none

theorem length_afterLineEnd? {cs rest : List Char} (read : afterLineEnd? cs = some rest) :
    rest.length ≤ cs.length := by
  have outer := (List.dropWhile_suffix (l := cs) isSpace).length_le
  simp only [afterLineEnd?] at read
  split at read
  next after same =>
    rw [same, List.length_cons] at outer
    have inner := (List.dropWhile_suffix (l := after) fun c => isSpace c || c == '\n').length_le
    rw [Option.some.inj read] at inner
    omega
  next => simp at read

def multilineBasic : List Char → Option (List Char × List Char)
  | [] => none
  | c :: rest =>
    if c == '\x22' then
      match quoteRun c (c :: rest) with
      | .closing kept => some (List.replicate kept c, rest.drop (kept + 2))
      | .tooMany => none
      | .inside => (multilineBasic rest).map fun (text, after) => (c :: text, after)
    else if c == '\\' then
      match _lineEnd : afterLineEnd? rest with
      | some rest' => multilineBasic rest'
      | none =>
        match _escape : escape? rest with
        | none => none
        | some (escaped, rest') =>
          (multilineBasic rest').map fun (text, after) => (escaped :: text, after)
    else if c == '\n' || isTextChar c then
      (multilineBasic rest).map fun (text, after) => (c :: text, after)
    else none
termination_by cs => cs.length
decreasing_by
  · simp
  · have := length_afterLineEnd? _lineEnd
    simp only [List.length_cons]
    omega
  · have := length_escape? _escape
    simp only [List.length_cons]
    omega
  · simp

def multilineLiteral : List Char → Option (List Char × List Char)
  | [] => none
  | c :: rest =>
    if c == '\x27' then
      match quoteRun c (c :: rest) with
      | .closing kept => some (List.replicate kept c, rest.drop (kept + 2))
      | .tooMany => none
      | .inside => (multilineLiteral rest).map fun (text, after) => (c :: text, after)
    else if c == '\n' || isTextChar c then
      (multilineLiteral rest).map fun (text, after) => (c :: text, after)
    else none

end BasicSketch.Toml
