import BasicSketch.Expr
import BasicSketch.LineError
import BasicSketch.Token.Scan

set_option autoImplicit false

/-! Groups of tokens. -/

namespace BasicSketch.Token

inductive Nesting where
  | opens | closes | flat
  deriving DecidableEq, Repr

def nesting (t : Token) : Nesting :=
  match t.kind with
  | .symbol .leftParen | .symbol .leftBracket | .symbol .leftBrace => .opens
  | .symbol .rightParen | .symbol .rightBracket | .symbol .rightBrace => .closes
  | _ => .flat

/-- The depth after a token; a bracket that closes nothing stays at top level. -/
def depthAfter (depth : Nat) (t : Token) : Nat :=
  match t.nesting with
  | .opens => depth + 1
  | .closes => depth - 1
  | .flat => depth

def splitAtTop (stop : TokenKind → Bool) : (depth : Nat) → List Token → List Token × List Token
  | _, [] => ([], [])
  | depth, t :: ts =>
    if depth == 0 && stop t.kind then ([], t :: ts)
    else
      let (before, rest) := splitAtTop stop (depthAfter depth t) ts
      (t :: before, rest)

theorem splitAtTop_append (stop : TokenKind → Bool) (depth : Nat) (ts : List Token) :
    (splitAtTop stop depth ts).1 ++ (splitAtTop stop depth ts).2 = ts := by
  induction ts generalizing depth with
  | nil => rfl
  | cons t rest ih =>
    simp only [splitAtTop]
    split
    · rfl
    · simp [ih]

theorem splitAtTop_suffix (stop : TokenKind → Bool) (depth : Nat) (ts : List Token) :
    (splitAtTop stop depth ts).2 <:+ ts :=
  ⟨_, splitAtTop_append stop depth ts⟩

theorem stop_of_splitAtTop {stop : TokenKind → Bool} {depth : Nat} {ts before rest : List Token}
    {t : Token} (parts : splitAtTop stop depth ts = (before, t :: rest)) : stop t.kind = true := by
  induction ts generalizing depth before with
  | nil => simp [splitAtTop] at parts
  | cons u us ih =>
    rw [splitAtTop] at parts
    split at parts
    · rename_i stops
      obtain ⟨rfl, -⟩ := List.cons.inj (Prod.mk.inj parts).2
      exact (Bool.and_eq_true_iff.1 stops).2
    · exact ih (Prod.ext rfl (Prod.mk.inj parts).2)

/-- What stands behind an opening bracket: the tokens up to its closing one, that one, and the
rest. `depth` brackets have been opened since. -/
def closeGroup? : (depth : Nat) → List Token → Option (List Token × Token × List Token)
  | _, [] => none
  | depth, t :: ts =>
    match t.nesting, depth with
    | .closes, 0 => some ([], t, ts)
    | _, _ => (closeGroup? (depthAfter depth t) ts).map fun (inside, close, rest) =>
        (t :: inside, close, rest)

theorem closeGroup?_append {depth : Nat} {ts inside rest : List Token} {close : Token}
    (h : closeGroup? depth ts = some (inside, close, rest)) : inside ++ close :: rest = ts := by
  induction ts generalizing depth inside with
  | nil => simp [closeGroup?] at h
  | cons t more ih =>
    simp only [closeGroup?] at h
    split at h
    · simp only [Option.some.injEq, Prod.mk.injEq] at h
      obtain ⟨rfl, rfl, rfl⟩ := h
      rfl
    · obtain ⟨⟨found, close', rest'⟩, eq, same⟩ := Option.map_eq_some_iff.1 h
      simp only [Prod.mk.injEq] at same
      obtain ⟨rfl, rfl, rfl⟩ := same
      simp [ih eq]

theorem closeGroup?_suffix {depth : Nat} {ts inside rest : List Token} {close : Token}
    (h : closeGroup? depth ts = some (inside, close, rest)) : rest <:+ ts :=
  ⟨inside ++ [close], by simpa using closeGroup?_append h⟩

/-- The column of the first bracket that closes nothing, or else of the outermost one that is
never closed. `opened` holds the columns of the open brackets, innermost first. -/
def unbalancedAt? : (opened : List Nat) → List Token → Option Nat
  | opened, [] => opened.getLast?
  | opened, t :: ts =>
    match t.nesting, opened with
    | .opens, _ => unbalancedAt? (t.start :: opened) ts
    | .closes, [] => some t.start
    | .closes, _ :: outer => unbalancedAt? outer ts
    | .flat, _ => unbalancedAt? opened ts

def checkBalanced (ts : List Token) : Except LineError Unit :=
  match unbalancedAt? [] ts with
  | some column => .error (.unbalanced column)
  | none => .ok ()

def splitCommas (endColumn : Nat) : (depth : Nat) → List Token → List (List Token × Nat)
  | _, [] => [([], endColumn)]
  | depth, t :: ts =>
    if depth == 0 && t.kind == .symbol .comma then
      ([], t.start) :: splitCommas endColumn 0 ts
    else
      match splitCommas endColumn (depthAfter depth t) ts with
      | [] => [([t], endColumn)]
      | (piece, column) :: more => (t :: piece, column) :: more

def argument : List Token × Nat → Except LineError Expr
  | ([], column) => .error (.invalid "empty argument" column)
  | (piece, _) => .ok (Expr.ofText (slice piece))

def arguments (endColumn : Nat) (ts : List Token) : Except LineError (List Expr) :=
  if ts.isEmpty then .ok []
  else do
    checkBalanced ts
    (splitCommas endColumn 0 ts).mapM argument

def endColumn (ts : List Token) : Nat := (ts.getLast?.map stop).getD 0

/-- The arguments of a call that takes up all of the tokens. One pair of parentheses around all
of them encloses the list. -/
def callArguments : List Token → Except LineError (List Expr)
  | [] => .ok []
  | t :: ts =>
    if t.kind == .symbol .leftParen then
      match closeGroup? 0 ts with
      | none => .error (.unbalanced t.start)
      | some (inside, close, []) => arguments close.start inside
      | some (_, _, _ :: _) => arguments (endColumn ts) (t :: ts)
    else arguments (endColumn (t :: ts)) (t :: ts)

end BasicSketch.Token
