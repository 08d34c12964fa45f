import BasicSketch.Proofs.CppReading
import BasicSketch.Cpp.Expression

set_option autoImplicit false

/-!
Conditions over integers: what they are made of, which operands an operator of the language takes,
and what they are worth.
-/

namespace BasicSketch

inductive Arithmetic where
  | power | multiply | divide | modulo | add | subtract
  deriving DecidableEq, Repr

inductive Comparison where
  | equal | notEqual | less | greater | lessEqual | greaterEqual
  deriving DecidableEq, Repr

inductive Term where
  | name (name : String)
  | number (value : Nat)
  | paren (inside : Term)
  | negate (operand : Term)
  | binary (operator : Arithmetic) (left right : Term)
  deriving DecidableEq, Repr

inductive Condition where
  | compare (comparison : Comparison) (left right : Term)
  | paren (inside : Condition)
  | not (operand : Condition)
  | and (left right : Condition)
  | or (left right : Condition)
  deriving DecidableEq, Repr

/-- What a token says; names and numbers by their text, all else by its kind. -/
inductive Word where
  | name (text : String)
  | number (text : String)
  | mark (kind : TokenKind)
  deriving DecidableEq, Repr

def Token.word (t : Token) : Word :=
  match t.kind with
  | .identifier => .name t.text
  | .integer => .number t.text
  | kind => .mark kind

def Arithmetic.kind : Arithmetic → TokenKind
  | .power => .symbol .caret
  | .multiply => .symbol .star
  | .divide => .symbol .backslash
  | .modulo => .keyword .Mod
  | .add => .symbol .plus
  | .subtract => .symbol .minus

def Comparison.kind : Comparison → TokenKind
  | .equal => .symbol .equals
  | .notEqual => .symbol .notEquals
  | .less => .symbol .lessThan
  | .greater => .symbol .greaterThan
  | .lessEqual => .symbol .lessEquals
  | .greaterEqual => .symbol .greaterEquals

def Term.words : Term → List Word
  | .name v => [.name v]
  | .number n => [.number (toString n)]
  | .paren t => .mark (.symbol .leftParen) :: (t.words ++ [.mark (.symbol .rightParen)])
  | .negate t => .mark (.symbol .minus) :: t.words
  | .binary o a b => a.words ++ .mark o.kind :: b.words

def Condition.words : Condition → List Word
  | .compare o a b => a.words ++ .mark o.kind :: b.words
  | .paren c => .mark (.symbol .leftParen) :: (c.words ++ [.mark (.symbol .rightParen)])
  | .not c => .mark (.keyword .Not) :: c.words
  | .and a b => a.words ++ .mark (.keyword .And) :: b.words
  | .or a b => a.words ++ .mark (.keyword .Or) :: b.words

/-! Precedence. -/

def Arithmetic.level : Arithmetic → Nat
  | .power => 10
  | .multiply => 8
  | .divide => 7
  | .modulo => 6
  | .add | .subtract => 5

def signLevel : Nat := 9

def Term.level : Term → Nat
  | .name _ | .number _ | .paren _ => 11
  | .negate _ => signLevel
  | .binary o _ _ => o.level

def comparisonLevel : Nat := 4

def Condition.level : Condition → Nat
  | .paren _ => 11
  | .compare .. => comparisonLevel
  | .not _ => 3
  | .and .. => 2
  | .or .. => 1

/-- No operator takes an operand that binds less tightly than itself. -/
def Term.Fits : Term → Prop
  | .name _ | .number _ => True
  | .paren t => t.Fits
  | .negate t => t.Fits ∧ signLevel ≤ t.level
  | .binary o a b => a.Fits ∧ b.Fits ∧ o.level ≤ a.level ∧ o.level < b.level

def Condition.Fits : Condition → Prop
  | .compare _ a b => a.Fits ∧ b.Fits
  | .paren c => c.Fits
  | .not c => c.Fits ∧ 3 ≤ c.level
  | .and a b => a.Fits ∧ b.Fits ∧ 2 ≤ a.level ∧ 2 < b.level
  | .or a b => a.Fits ∧ b.Fits ∧ 1 ≤ a.level ∧ 1 < b.level

def Condition.Reads (c : Condition) (text : String) : Prop :=
  (Token.ofLine text).map Token.word = c.words ∧ c.Fits

def Arithmetic.apply (x y : Int) : Arithmetic → Option Int
  | .power => if y < 0 then none else some (x ^ y.toNat)
  | .multiply => some (x * y)
  | .divide => if y = 0 then none else some (x.tdiv y)
  | .modulo => if y = 0 then none else some (x.tmod y)
  | .add => some (x + y)
  | .subtract => some (x - y)

def Comparison.holds (x y : Int) : Comparison → Bool
  | .equal => x == y
  | .notEqual => x != y
  | .less => x < y
  | .greater => y < x
  | .lessEqual => x ≤ y
  | .greaterEqual => y ≤ x

def Term.eval (ρ : String → Int) : Term → Option Int
  | .name v => some (ρ v)
  | .number n => some n
  | .paren t => t.eval ρ
  | .negate t => (t.eval ρ).map fun x => -x
  | .binary o a b => do o.apply (← a.eval ρ) (← b.eval ρ)

def Condition.eval (ρ : String → Int) : Condition → Option Bool
  | .compare o a b => do return o.holds (← a.eval ρ) (← b.eval ρ)
  | .paren c => c.eval ρ
  | .not c => (c.eval ρ).map fun x => !x
  | .and a b => do return (← a.eval ρ) && (← b.eval ρ)
  | .or a b => do return (← a.eval ρ) || (← b.eval ρ)

def Arithmetic.cpp : Arithmetic → Cpp.Binary
  | .power => .xor
  | .multiply => .multiply
  | .divide => .divide
  | .modulo => .remainder
  | .add => .add
  | .subtract => .subtract

def Comparison.cpp : Comparison → Cpp.Binary
  | .equal => .equal
  | .notEqual => .notEqual
  | .less => .less
  | .greater => .greater
  | .lessEqual => .lessEqual
  | .greaterEqual => .greaterEqual

def Term.cpp : Term → Cpp.Tree
  | .name v => .name v
  | .number n => .number n
  | .paren t => t.cpp
  | .negate t => .negate t.cpp
  | .binary o a b => .binary o.cpp a.cpp b.cpp

def Condition.cpp : Condition → Cpp.Tree
  | .compare o a b => .binary o.cpp a.cpp b.cpp
  | .paren c => c.cpp
  | .not c => .not c.cpp
  | .and a b => .binary .and a.cpp b.cpp
  | .or a b => .binary .or a.cpp b.cpp

/-- A name that means the same variable on both sides. -/
def Cpp.Keeps (σ : Symbols) (name : String) : Prop :=
  Cpp.bareName σ name = name ∧ name.toList.all Text.isNameChar = true ∧ name ∉ Cpp.reserved

def Term.Keeps (σ : Symbols) : Term → Prop
  | .name v => Cpp.Keeps σ v
  | .number _ => True
  | .paren t | .negate t => t.Keeps σ
  | .binary _ a b => a.Keeps σ ∧ b.Keeps σ

def Condition.Keeps (σ : Symbols) : Condition → Prop
  | .compare _ a b => a.Keeps σ ∧ b.Keeps σ
  | .paren c | .not c => c.Keeps σ
  | .and a b | .or a b => a.Keeps σ ∧ b.Keeps σ

/-- Nothing is raised to a power, and what stands right of a division or of `Mod` is one factor. -/
def Term.Portable : Term → Prop
  | .name _ | .number _ => True
  | .paren t | .negate t => t.Portable
  | .binary o a b => o ≠ .power ∧ a.Portable ∧ b.Portable ∧
    (o = .divide ∨ o = .modulo → signLevel ≤ b.level)

/-- What `Not` stands before is in parentheses or has a `Not` of its own. -/
def Condition.Portable : Condition → Prop
  | .compare _ a b => a.Portable ∧ b.Portable
  | .paren c => c.Portable
  | .not c => c.Portable ∧ c.level ≠ comparisonLevel
  | .and a b | .or a b => a.Portable ∧ b.Portable

variable {o : Arithmetic} {x : Int} {ρ : String → Int} {t : Term} {c : Condition}

theorem Arithmetic.apply_cpp (defined : o ≠ .power) (x y : Int) :
    o.cpp.apply x y = o.apply x y := by
  cases o with
  | power => exact absurd rfl defined
  | _ => rfl

theorem Comparison.apply_cpp (o : Comparison) (x y : Int) :
    o.cpp.apply x y = some (Cpp.truth (o.holds x y)) := by
  cases o <;> rfl

theorem Cpp.Tree.eval_binary {o : Cpp.Binary} {a b : Cpp.Tree} {y : Int}
    (strict : o ≠ .and ∧ o ≠ .or) (left : a.eval ρ = some x) (right : b.eval ρ = some y) :
    (Cpp.Tree.binary o a b).eval ρ = o.apply x y := by
  simp [Cpp.Tree.eval, left, right, strict.1, strict.2]

theorem Term.eval_cpp (portable : t.Portable) (value : t.eval ρ = some x) :
    t.cpp.eval ρ = some x := by
  induction t generalizing x with
  | name v => exact value
  | number n => exact value
  | paren t ih => exact ih portable value
  | negate t ih =>
    obtain ⟨y, inner, rfl⟩ := Option.map_eq_some_iff.1 value
    simp [Term.cpp, Cpp.Tree.eval, ih portable inner]
  | binary o a b left right =>
    obtain ⟨defined, first, second, -⟩ := portable
    simp only [Term.eval, Option.bind_eq_bind, Option.bind_eq_some_iff] at value
    obtain ⟨y, valueA, z, valueB, applied⟩ := value
    have strict : o.cpp ≠ .and ∧ o.cpp ≠ .or := by cases o <;> decide
    rw [Term.cpp, Cpp.Tree.eval_binary strict (left first valueA) (right second valueB),
      Arithmetic.apply_cpp defined, applied]

theorem Condition.eval_cpp (portable : c.Portable) {b : Bool} (value : c.eval ρ = some b) :
    c.cpp.eval ρ = some (Cpp.truth b) := by
  induction c generalizing b with
  | compare o t u =>
    simp only [Condition.eval, Option.bind_eq_bind, Option.bind_eq_some_iff] at value
    obtain ⟨x, valueT, y, valueU, same⟩ := value
    have strict : o.cpp ≠ .and ∧ o.cpp ≠ .or := by cases o <;> decide
    obtain rfl := Option.some.inj same
    rw [Condition.cpp, Cpp.Tree.eval_binary strict (Term.eval_cpp portable.1 valueT)
      (Term.eval_cpp portable.2 valueU), Comparison.apply_cpp]
  | paren c ih => exact ih portable value
  | not c ih =>
    obtain ⟨p, inner, rfl⟩ := Option.map_eq_some_iff.1 value
    rw [Condition.cpp, Cpp.Tree.eval, ih portable.1 inner]
    cases p <;> rfl
  | and c d left right | or c d left right =>
    simp only [Condition.eval, Option.bind_eq_bind, Option.bind_eq_some_iff] at value
    obtain ⟨p, valueC, q, valueD, same⟩ := value
    obtain rfl := Option.some.inj same
    rw [Condition.cpp, Cpp.Tree.eval, left portable.1 valueC, right portable.2 valueD]
    cases p <;> cases q <;> rfl

def Term.lexed : Term → List Cpp.Lexed
  | .name v => [.name v]
  | .number n => [.number n]
  | .paren t => .leftParen :: (t.lexed ++ [.rightParen])
  | .negate t => .operator .subtract :: t.lexed
  | .binary o a b => a.lexed ++ .operator o.cpp :: b.lexed

def Condition.lexed : Condition → List Cpp.Lexed
  | .compare o a b => a.lexed ++ .operator o.cpp :: b.lexed
  | .paren c => .leftParen :: (c.lexed ++ [.rightParen])
  | .not c => .not :: c.lexed
  | .and a b => a.lexed ++ .operator .and :: b.lexed
  | .or a b => a.lexed ++ .operator .or :: b.lexed

def Term.cppLevel : Term → Nat
  | .name _ | .number _ | .paren _ => Cpp.primaryLevel
  | .negate _ => Cpp.unaryLevel
  | .binary o _ _ => o.cpp.level

def Condition.cppLevel : Condition → Nat
  | .compare o _ _ => o.cpp.level
  | .paren _ => Cpp.primaryLevel
  | .not _ => Cpp.unaryLevel
  | .and .. => Cpp.Binary.and.level
  | .or .. => Cpp.Binary.or.level

theorem Arithmetic.levels {o : Arithmetic} (defined : o ≠ .power) :
    o.level = 5 ∧ o.cpp.level = 6 ∨ (6 ≤ o.level ∧ o.level < signLevel) ∧ o.cpp.level = 7 := by
  cases o with
  | power => exact absurd rfl defined
  | _ => decide

theorem Term.Portable.levels {t : Term} (portable : t.Portable) :
    t.level = 5 ∧ t.cppLevel = 6 ∨ (6 ≤ t.level ∧ t.level < signLevel) ∧ t.cppLevel = 7 ∨
      signLevel ≤ t.level ∧ Cpp.unaryLevel ≤ t.cppLevel := by
  cases t with
  | binary o a b =>
    rcases Arithmetic.levels portable.1 with sum | product
    · exact Or.inl sum
    · exact Or.inr (Or.inl product)
  | _ => simp [Term.level, Term.cppLevel, signLevel, Cpp.unaryLevel, Cpp.primaryLevel]

theorem Condition.levels (c : Condition) :
    c.level = 1 ∧ c.cppLevel = 1 ∨ c.level = 2 ∧ c.cppLevel = 2 ∨
      c.level = comparisonLevel ∧ 4 ≤ c.cppLevel ∧ c.cppLevel ≤ 5 ∨
        3 ≤ c.level ∧ Cpp.unaryLevel ≤ c.cppLevel := by
  cases c with
  | compare o a b => cases o <;> simp [Condition.level, Condition.cppLevel, Comparison.cpp,
      Cpp.Binary.level]
  | _ => simp [Condition.level, Condition.cppLevel, Cpp.Binary.level, Cpp.unaryLevel,
      Cpp.primaryLevel]

theorem Term.tight {a b : Term} (defined : o ≠ .power) (left : a.Portable) (right : b.Portable)
    (tight : o.level ≤ a.level) (tighter : o.level < b.level)
    (factor : o = .divide ∨ o = .modulo → signLevel ≤ b.level) :
    o.cpp.level ≤ a.cppLevel ∧ o.cpp.level < b.cppLevel := by
  have product : 6 ≤ o.level → signLevel ≤ b.level := by
    intro high
    cases o with
    | divide | modulo => exact factor (by simp)
    | multiply => exact tighter
    | power => exact absurd rfl defined
    | add | subtract => exact absurd high (by decide)
  have levels := Arithmetic.levels defined
  have levelsA := left.levels
  have levelsB := right.levels
  simp only [Cpp.unaryLevel, signLevel] at *
  omega

theorem Term.spelled (fits : t.Fits) (portable : t.Portable) :
    Cpp.Spelled t.cppLevel t.lexed t.cpp := by
  induction t with
  | name v => exact .name v
  | number n => exact .number n
  | paren t ih => exact .paren (ih fits portable)
  | negate t ih =>
    have tight := fits.2
    have levels := @Term.Portable.levels t portable
    refine .negate (ih fits.1 portable) ?_
    simp only [Cpp.unaryLevel, signLevel] at *
    omega
  | binary o a b left right =>
    obtain ⟨fitsA, fitsB, tight, tighter⟩ := fits
    obtain ⟨defined, first, second, factor⟩ := portable
    have both := Term.tight defined first second tight tighter factor
    exact .binary o.cpp (left fitsA first) (right fitsB second) both.1 both.2

theorem Condition.spelled (fits : c.Fits) (portable : c.Portable) :
    Cpp.Spelled c.cppLevel c.lexed c.cpp := by
  induction c with
  | compare o a b =>
    have low : o.cpp.level ≤ 5 := by cases o <;> decide
    have levelsA := portable.1.levels
    have levelsB := portable.2.levels
    simp only [Cpp.unaryLevel, signLevel] at levelsA levelsB
    exact .binary o.cpp (Term.spelled fits.1 portable.1) (Term.spelled fits.2 portable.2)
      (by omega) (by omega)
  | paren c ih => exact .paren (ih fits portable)
  | not c ih =>
    -- A comparison is what `Not` takes in the language and not in C++.
    have closed := portable.2
    have tight := fits.2
    have levels := c.levels
    exact .not (ih fits.1 portable.1) (by omega)
  | and a b left right =>
    obtain ⟨fitsA, fitsB, tight, tighter⟩ := fits
    have levelsA := a.levels
    have levelsB := b.levels
    simp only [Cpp.unaryLevel, comparisonLevel] at levelsA levelsB
    exact .binary .and (left fitsA portable.1) (right fitsB portable.2)
      (show 2 ≤ _ by omega) (show 2 < _ by omega)
  | or a b left right =>
    obtain ⟨fitsA, fitsB, tight, tighter⟩ := fits
    have levelsA := a.levels
    have levelsB := b.levels
    simp only [Cpp.unaryLevel, comparisonLevel] at levelsA levelsB
    exact .binary .or (left fitsA portable.1) (right fitsB portable.2)
      (show 1 ≤ _ by omega) (show 1 < _ by omega)

end BasicSketch
