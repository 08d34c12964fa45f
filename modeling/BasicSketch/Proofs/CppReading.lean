import BasicSketch.Text.Decimal
import BasicSketch.Text.Letters
import Mathlib.Data.Int.Bitwise

set_option autoImplicit false

/-!
C++ expressions as a compiler reads them: characters are grouped into the longest tokens that they
begin with, and operators take their operands by precedence, from left to right.
-/

namespace BasicSketch.Cpp

def reserved : List String :=
  ["alignas", "alignof", "and", "and_eq", "asm", "auto", "bitand", "bitor", "bool", "break",
   "case", "catch", "char", "char8_t", "char16_t", "char32_t", "class", "compl", "concept",
   "const", "consteval", "constexpr", "constinit", "const_cast", "continue", "co_await",
   "co_return", "co_yield", "decltype", "default", "delete", "do", "double", "dynamic_cast",
   "else", "enum", "explicit", "export", "extern", "false", "float", "for", "friend", "goto",
   "if", "inline", "int", "long", "mutable", "namespace", "new", "noexcept", "not", "not_eq",
   "nullptr", "operator", "or", "or_eq", "private", "protected", "public", "register",
   "reinterpret_cast", "requires", "return", "short", "signed", "sizeof", "static",
   "static_assert", "static_cast", "struct", "switch", "template", "this", "thread_local",
   "throw", "true", "try", "typedef", "typeid", "typename", "union", "unsigned", "using",
   "virtual", "void", "volatile", "wchar_t", "while", "xor", "xor_eq"]

inductive Binary where
  | or | and | xor | equal | notEqual | less | greater | lessEqual | greaterEqual
  | add | subtract | multiply | divide | remainder
  deriving DecidableEq, Repr

def Binary.level : Binary → Nat
  | .or => 1
  | .and => 2
  | .xor => 3
  | .equal | .notEqual => 4
  | .less | .greater | .lessEqual | .greaterEqual => 5
  | .add | .subtract => 6
  | .multiply | .divide | .remainder => 7

def unaryLevel : Nat := 8

def primaryLevel : Nat := 9

inductive Tree where
  | name (name : String)
  | number (value : Nat)
  | negate (operand : Tree)
  | not (operand : Tree)
  | binary (operator : Binary) (left right : Tree)
  deriving DecidableEq, Repr

def truth (b : Bool) : Int := if b then 1 else 0

def Binary.apply (x y : Int) : Binary → Option Int
  | .or => some (truth (x != 0 || y != 0))
  | .and => some (truth (x != 0 && y != 0))
  | .xor => some (Int.xor x y)
  | .equal => some (truth (x == y))
  | .notEqual => some (truth (x != y))
  | .less => some (truth (x < y))
  | .greater => some (truth (y < x))
  | .lessEqual => some (truth (x ≤ y))
  | .greaterEqual => some (truth (y ≤ x))
  | .add => some (x + y)
  | .subtract => some (x - y)
  | .multiply => some (x * y)
  | .divide => if y = 0 then none else some (x.tdiv y)
  | .remainder => if y = 0 then none else some (x.tmod y)

/-- The second operand of a logical operator is left out if the first one decides. -/
def Tree.eval (ρ : String → Int) : Tree → Option Int
  | .name v => some (ρ v)
  | .number n => some n
  | .negate e => (e.eval ρ).map fun x => -x
  | .not e => (e.eval ρ).map fun x => truth (x == 0)
  | .binary operator a b => do
    let x ← a.eval ρ
    if operator = .and ∧ x = 0 then some 0
    else if operator = .or ∧ x ≠ 0 then some 1
    else operator.apply x (← b.eval ρ)

inductive Lexed where
  | name (name : String)
  | number (value : Nat)
  | leftParen
  | rightParen
  | not
  | operator (operator : Binary)
  deriving DecidableEq, Repr

def isSpace (c : Char) : Bool :=
  c == ' ' || c == '\t' || c == '\r' || c == '\n' || c == '\x0b' || c == '\x0c'

def goesOnNumber (c : Char) : Bool := Text.isNameChar c || c == '.'

def decimal? (cs : List Char) : Option Nat :=
  if cs.head? = some '0' ∧ cs ≠ ['0'] then none else Text.readDigits? cs

/-- The operator or parenthesis at the beginning of `c :: rest` and its length. -/
def punctuator? (c : Char) (rest : List Char) : Option (Lexed × Nat) :=
  match c, rest.head? with
  | '(', _ => some (.leftParen, 1)
  | ')', _ => some (.rightParen, 1)
  | '!', some '=' => some (.operator .notEqual, 2)
  | '!', _ => some (.not, 1)
  | '=', some '=' => some (.operator .equal, 2)
  | '<', some '=' => some (.operator .lessEqual, 2)
  | '<', some '<' | '<', some ':' | '<', some '%' => none
  | '<', _ => some (.operator .less, 1)
  | '>', some '=' => some (.operator .greaterEqual, 2)
  | '>', some '>' => none
  | '>', _ => some (.operator .greater, 1)
  | '&', some '&' => some (.operator .and, 2)
  | '|', some '|' => some (.operator .or, 2)
  | '^', some '=' => none
  | '^', _ => some (.operator .xor, 1)
  | '+', some '+' | '+', some '=' => none
  | '+', _ => some (.operator .add, 1)
  | '-', some '-' | '-', some '=' | '-', some '>' => none
  | '-', _ => some (.operator .subtract, 1)
  | '*', some '=' => none
  | '*', _ => some (.operator .multiply, 1)
  | '/', some '/' | '/', some '*' | '/', some '=' => none
  | '/', _ => some (.operator .divide, 1)
  | '%', some '=' | '%', some ':' | '%', some '>' => none
  | '%', _ => some (.operator .remainder, 1)
  | _, _ => none

def lexeme? (c : Char) (rest : List Char) : Option (Lexed × Nat) :=
  if c.isDigit then
    let digits := (c :: rest).takeWhile goesOnNumber
    (decimal? digits).map fun n => (.number n, digits.length)
  else if Text.isNameChar c then
    let word := String.ofList ((c :: rest).takeWhile Text.isNameChar)
    if reserved.contains word then none else some (.name word, word.length)
  else punctuator? c rest

/-- The tokens of a text, where `skip` characters still belong to the token before. -/
def lex : (skip : Nat) → List Char → Option (List Lexed)
  | _, [] => some []
  | skip + 1, _ :: rest => lex skip rest
  | 0, c :: rest =>
    if isSpace c then lex 0 rest
    else do
      let (t, length) ← lexeme? c rest
      return t :: (← lex (length - 1) rest)

theorem lex_drop (skip : Nat) (cs : List Char) : lex skip cs = lex 0 (cs.drop skip) := by
  induction cs generalizing skip with
  | nil => simp [lex]
  | cons c rest ih =>
    cases skip with
    | zero => rfl
    | succ skip => simpa [lex] using ih skip

theorem lex_space {gap : List Char} (white : ∀ c ∈ gap, isSpace c = true) (cs : List Char) :
    lex 0 (gap ++ cs) = lex 0 cs := by
  induction gap with
  | nil => rfl
  | cons c rest ih =>
    rw [List.cons_append, lex, if_pos (white c List.mem_cons_self)]
    exact ih fun d mem => white d (List.mem_cons_of_mem _ mem)

theorem lex_lexeme {c : Char} {text cs : List Char} {t : Lexed} (dark : isSpace c = false)
    (token : lexeme? c (text ++ cs) = some (t, text.length + 1)) :
    lex 0 (c :: text ++ cs) = (lex 0 cs).map (t :: ·) := by
  rw [List.cons_append, lex, if_neg (by simp [dark]), token]
  simp [lex_drop text.length, Option.map_eq_bind]

mutual

def readOperand : (fuel : Nat) → List Lexed → Option (Tree × List Lexed)
  | 0, _ => none
  | fuel + 1, ts =>
    match ts with
    | .name v :: rest => some (.name v, rest)
    | .number n :: rest => some (.number n, rest)
    | .operator .subtract :: rest => do
      let (e, rest) ← readOperand fuel rest
      some (.negate e, rest)
    | .not :: rest => do
      let (e, rest) ← readOperand fuel rest
      some (.not e, rest)
    | .leftParen :: rest => do
      match ← readOperation fuel 0 rest with
      | (e, .rightParen :: rest) => some (e, rest)
      | _ => none
    | _ => none

def readOperation : (fuel : Nat) → (least : Nat) → List Lexed → Option (Tree × List Lexed)
  | 0, _, _ => none
  | fuel + 1, least, ts => do
    let (e, rest) ← readOperand fuel ts
    readOperators fuel least e rest

def readOperators : (fuel : Nat) → (least : Nat) → Tree → List Lexed → Option (Tree × List Lexed)
  | 0, _, _, _ => none
  | fuel + 1, least, e, ts =>
    match ts with
    | .operator o :: rest =>
      if least ≤ o.level then do
        let (f, rest) ← readOperation fuel (o.level + 1) rest
        readOperators fuel least (.binary o e f) rest
      else some (e, ts)
    | _ => some (e, ts)

end

def readAll (ts : List Lexed) : Option Tree := do
  match ← readOperation (2 * ts.length) 0 ts with
  | (e, []) => some e
  | _ => none

def read (text : String) : Option Tree := (lex 0 text.toList).bind readAll

/-- Whether a text holds as a condition; none if it is no expression or has no value. -/
def holds? (ρ : String → Int) (text : String) : Option Bool :=
  ((read text).bind (Tree.eval ρ)).map (· != 0)

inductive Spelled : Nat → List Lexed → Tree → Prop
  | name (v : String) : Spelled primaryLevel [.name v] (.name v)
  | number (n : Nat) : Spelled primaryLevel [.number n] (.number n)
  | paren {level : Nat} {ts : List Lexed} {e : Tree} (inside : Spelled level ts e) :
    Spelled primaryLevel (.leftParen :: (ts ++ [.rightParen])) e
  | negate {level : Nat} {ts : List Lexed} {e : Tree} (inside : Spelled level ts e)
    (tight : unaryLevel ≤ level) : Spelled unaryLevel (.operator .subtract :: ts) (.negate e)
  | not {level : Nat} {ts : List Lexed} {e : Tree} (inside : Spelled level ts e)
    (tight : unaryLevel ≤ level) : Spelled unaryLevel (.not :: ts) (.not e)
  | binary (o : Binary) {level level' : Nat} {ts us : List Lexed} {a b : Tree}
    (left : Spelled level ts a) (right : Spelled level' us b) (tight : o.level ≤ level)
    (tighter : o.level < level') : Spelled o.level (ts ++ .operator o :: us) (.binary o a b)

def Stops (level : Nat) (ts : List Lexed) : Prop :=
  ∀ o, ts.head? = some (.operator o) → o.level ≤ level

theorem Binary.level_lt_unaryLevel (o : Binary) : o.level < unaryLevel := by cases o <;> decide

variable {ts : List Lexed} {e : Tree} {level : Nat}

theorem readOperators_stop {fuel least : Nat} (e : Tree) (some_fuel : 0 < fuel)
    (stops : ∀ o, ts.head? = some (.operator o) → o.level < least) :
    readOperators fuel least e ts = some (e, ts) := by
  obtain ⟨fuel, rfl⟩ := Nat.exists_eq_succ_of_ne_zero (Nat.ne_of_gt some_fuel)
  unfold readOperators
  split
  · rename_i o rest
    rw [if_neg (Nat.not_le.2 (stops o rfl))]
  · rfl

theorem Spelled.length_pos (spelled : Spelled level ts e) : 0 < ts.length := by
  cases spelled <;> simp only [List.length_cons, List.length_append] <;> omega

def ReadsOperand (ts : List Lexed) (e : Tree) : Prop :=
  ∀ fuel rest, 2 * ts.length ≤ fuel + 1 → readOperand fuel (ts ++ rest) = some (e, rest)

def ReadsOperation (level : Nat) (ts : List Lexed) (e : Tree) : Prop :=
  ∀ fuel least rest, least ≤ level → Stops level rest → 2 * ts.length ≤ fuel →
    ∃ left, fuel ≤ left + ts.length ∧
      readOperation fuel least (ts ++ rest) = readOperators left least e rest

theorem ReadsOperand.operation (reads : ReadsOperand ts e) (some_token : 0 < ts.length)
    (level : Nat) : ReadsOperation level ts e := by
  intro fuel least rest _ _ enough
  obtain ⟨fuel, rfl⟩ := Nat.exists_eq_succ_of_ne_zero (show fuel ≠ 0 by omega)
  refine ⟨fuel, by omega, ?_⟩
  rw [readOperation, reads fuel rest enough]
  rfl

theorem ReadsOperation.paren (reads : ReadsOperation level ts e) :
    ReadsOperand (.leftParen :: (ts ++ [.rightParen])) e := by
  intro fuel rest enough
  simp only [List.length_cons, List.length_append, List.length_nil] at enough
  obtain ⟨fuel, rfl⟩ := Nat.exists_eq_succ_of_ne_zero (show fuel ≠ 0 by omega)
  obtain ⟨left, used, eq⟩ := reads fuel 0 (.rightParen :: rest) (Nat.zero_le _)
    (by simp [Stops]) (by omega)
  have stop : readOperators left 0 e (.rightParen :: rest) = some (e, .rightParen :: rest) :=
    readOperators_stop e (by omega) (by simp)
  rw [List.cons_append, List.append_assoc, List.singleton_append, readOperand, eq, stop]
  rfl

theorem ReadsOperation.binary {o : Binary} {level' : Nat} {us : List Lexed} {a b : Tree}
    (first : ReadsOperation level ts a) (second : ReadsOperation level' us b)
    (tight : o.level ≤ level) (tighter : o.level < level') :
    ReadsOperation o.level (ts ++ .operator o :: us) (.binary o a b) := by
  intro fuel least rest low stops enough
  simp only [List.length_cons, List.length_append] at enough ⊢
  have stops_first : Stops level (.operator o :: (us ++ rest)) := by
    intro o' head
    obtain rfl : o = o' := by simpa using head
    exact tight
  have stops_second : Stops level' rest := fun o' head =>
    Nat.le_trans (stops o' head) (Nat.le_of_lt tighter)
  obtain ⟨left, used, eq⟩ := first fuel least (.operator o :: (us ++ rest))
    (Nat.le_trans low tight) stops_first (by omega)
  obtain ⟨left, rfl⟩ := Nat.exists_eq_succ_of_ne_zero (show left ≠ 0 by omega)
  obtain ⟨left', used', eq'⟩ := second left (o.level + 1) rest tighter stops_second (by omega)
  -- What follows binds no more tightly than the operator, so its right operand ends here.
  have stop : readOperators left' (o.level + 1) b rest = some (b, rest) :=
    readOperators_stop b (by omega) fun o' head => Nat.lt_succ_of_le (stops o' head)
  refine ⟨left, by omega, ?_⟩
  rw [List.append_assoc, List.cons_append, eq, readOperators, if_pos low, eq', stop]
  rfl

theorem Spelled.reads (spelled : Spelled level ts e) :
    (unaryLevel ≤ level → ReadsOperand ts e) ∧ ReadsOperation level ts e := by
  induction spelled with
  | name | number =>
    refine ⟨fun _ => ?_, ReadsOperand.operation ?_ (by simp) _⟩ <;>
    · intro fuel rest enough
      obtain ⟨fuel, rfl⟩ := Nat.exists_eq_succ_of_ne_zero (show fuel ≠ 0 by
        simp only [List.length_singleton] at enough
        omega)
      rfl
  | paren _ ih => exact ⟨fun _ => ih.2.paren, ih.2.paren.operation (by simp) _⟩
  | negate _ tight ih | not _ tight ih =>
    have reads := ih.1 tight
    refine ⟨fun _ => ?_, ReadsOperand.operation ?_ (by simp) _⟩ <;>
    · intro fuel rest enough
      simp only [List.length_cons] at enough
      obtain ⟨fuel, rfl⟩ := Nat.exists_eq_succ_of_ne_zero (show fuel ≠ 0 by omega)
      rw [List.cons_append, readOperand, reads fuel rest (by omega)]
      rfl
  | binary o _ _ tight tighter first second =>
    refine ⟨fun unary => ?_, first.2.binary second.2 tight tighter⟩
    exact absurd unary (Nat.not_le.2 o.level_lt_unaryLevel)

theorem read_of_spelled {text : String} (tokens : lex 0 text.toList = some ts)
    (spelled : Spelled level ts e) : read text = some e := by
  obtain ⟨left, used, eq⟩ := spelled.reads.2 (2 * ts.length) 0 [] (Nat.zero_le _)
    (by simp [Stops]) (Nat.le_refl _)
  have some_token := spelled.length_pos
  have stop : readOperators left 0 e [] = some (e, []) := readOperators_stop e (by omega) (by simp)
  rw [List.append_nil] at eq
  simp [read, readAll, tokens, eq, stop]

end BasicSketch.Cpp
