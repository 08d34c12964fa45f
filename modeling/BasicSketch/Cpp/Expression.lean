import BasicSketch.Cpp.Builtin
import BasicSketch.Token.Group

set_option autoImplicit false

/-! Expressions in C++. -/

namespace BasicSketch

structure Symbols where
  /-- Names whose members are reached by an arrow. -/
  pointers : List String
  callNames : List String
  bounds : List (String × List String)
  base : Nat
  display : Option Display
  drawn : Bool

namespace Symbols

def panel (σ : Symbols) : Display := σ.display.getD .tftEspi

def usesTft (σ : Symbols) : Bool :=
  match σ.display with
  | some display => display == .tftEspi
  | none => σ.drawn

def isPointer (σ : Symbols) (name : String) : Bool := σ.pointers.contains name

def isCallName (σ : Symbols) (name : String) : Bool := σ.callNames.contains name

end Symbols

namespace Cpp

open Token

/-- How an expression is used: for its value, as a condition, or as the target of an
assignment. -/
inductive Mode where
  | value | condition | target
  deriving DecidableEq, Repr

/-- What stands behind an opening parenthesis, up to the one that closes it, where `depth` more
have been opened since: the tokens inside, the closing one, and the rest. -/
def closeParen? : (depth : Nat) → List Token → Option (List Token × Token × List Token)
  | _, [] => none
  | depth, t :: ts =>
    match t.kind, depth with
    | .symbol .rightParen, 0 => some ([], t, ts)
    | .symbol .rightParen, depth + 1 =>
      (closeParen? depth ts).map fun (inside, close, rest) => (t :: inside, close, rest)
    | .symbol .leftParen, depth =>
      (closeParen? (depth + 1) ts).map fun (inside, close, rest) => (t :: inside, close, rest)
    | _, depth =>
      (closeParen? depth ts).map fun (inside, close, rest) => (t :: inside, close, rest)

theorem closeParen?_append {depth : Nat} {ts inside rest : List Token} {close : Token}
    (h : closeParen? depth ts = some (inside, close, rest)) : inside ++ close :: rest = ts := by
  induction ts generalizing depth inside with
  | nil => simp [closeParen?] at h
  | cons t more ih =>
    simp only [closeParen?] at h
    split at h
    · simp only [Option.some.injEq, Prod.mk.injEq] at h
      obtain ⟨rfl, rfl, rfl⟩ := h
      rfl
    all_goals
      obtain ⟨⟨found, close', rest'⟩, eq, same⟩ := Option.map_eq_some_iff.1 h
      simp only [Prod.mk.injEq] at same
      obtain ⟨rfl, rfl, rfl⟩ := same
      simp [ih eq]

theorem kind_closeParen? {depth : Nat} {ts inside rest : List Token} {close : Token}
    (h : closeParen? depth ts = some (inside, close, rest)) : close.kind = .symbol .rightParen := by
  induction ts generalizing depth inside with
  | nil => simp [closeParen?] at h
  | cons t more ih =>
    simp only [closeParen?] at h
    split at h
    · cases h
      assumption
    all_goals
      obtain ⟨_, eq, same⟩ := Option.map_eq_some_iff.1 h
      cases same
      exact ih eq

def argumentList? : List Token → Option (List Token × Token × List Token)
  | [] => none
  | t :: ts => if t.kind == .symbol .leftParen then closeParen? 0 ts else none

theorem length_argumentList? {ts inside rest : List Token} {close : Token}
    (h : argumentList? ts = some (inside, close, rest)) :
    inside.length + rest.length + 2 = ts.length := by
  cases ts with
  | nil => simp [argumentList?] at h
  | cons t more =>
    simp only [argumentList?] at h
    split at h
    · have whole := congrArg List.length (closeParen?_append h)
      simp only [List.length_append, List.length_cons] at whole ⊢
      omega
    · simp at h

def depthAcross (depth : Int) (t : Token) : Int :=
  match t.nesting with
  | .opens => depth + 1
  | .closes => depth - 1
  | .flat => depth

def splitPieces : (depth : Int) → List Token → List (List Token)
  | _, [] => [[]]
  | depth, t :: ts =>
    if depth == 0 && t.kind == .symbol .comma then [] :: splitPieces 0 ts
    else
      match splitPieces (depthAcross depth t) ts with
      | [] => [[t]]
      | first :: more => (t :: first) :: more

def splitArguments (ts : List Token) : List (List Token) :=
  if ts.isEmpty then [] else splitPieces 0 ts

theorem length_le_of_mem_splitPieces {depth : Int} {ts piece : List Token}
    (mem : piece ∈ splitPieces depth ts) : piece.length ≤ ts.length := by
  induction ts generalizing depth piece with
  | nil => simp_all [splitPieces]
  | cons t rest ih =>
    simp only [splitPieces] at mem
    split at mem
    · rcases List.mem_cons.1 mem with rfl | later
      · simp
      · exact Nat.le_succ_of_le (ih later)
    · cases eq : splitPieces (depthAcross depth t) rest with
      | nil =>
        simp only [eq, List.mem_singleton] at mem
        simp [mem]
      | cons first more =>
        simp only [eq, List.mem_cons] at mem
        rcases mem with rfl | later
        · exact Nat.succ_le_succ (ih (eq ▸ List.mem_cons_self))
        · exact Nat.le_succ_of_le (ih (eq ▸ List.mem_cons_of_mem _ later))

theorem length_le_of_mem_splitArguments {ts piece : List Token}
    (mem : piece ∈ splitArguments ts) : piece.length ≤ ts.length := by
  unfold splitArguments at mem
  split at mem
  · simp at mem
  · exact length_le_of_mem_splitPieces mem

/-- How a built-in function uses its argument at `index`: the conditions of `IIf` and `Switch` are
conditions. -/
def argumentMode (name : String) (count index : Nat) : Mode :=
  if name == "iif" && count == 3 && index == 0 then .condition
  else if name == "switch" && count ≥ 2 && count % 2 == 0 && index % 2 == 0 then .condition
  else .value

/-- A dot after the name of a pointer, where `before` holds the tokens before it, nearest first.
-/
def followsPointer (σ : Symbols) (before : List Token) (dot : Token) : Bool :=
  match before with
  | [] => false
  | object :: rest =>
    object.kind == .identifier && dot.gap.isEmpty && !(rest.head?.any (·.kind.isMember)) &&
      σ.isPointer object.text

def besideEquals (before after : List Token) : Bool :=
  before.head?.any (fun t => t.kind == .symbol .equals || t.text == "!") ||
    after.head?.any (·.kind == .symbol .equals)

def spelling (σ : Symbols) (mode : Mode) (before : List Token) (t : Token) (after : List Token) :
    String :=
  match t.kind with
  | .hex => "0x" ++ String.ofList (t.text.toList.drop 2)
  | .octal => "0" ++ String.ofList (t.text.toList.drop 2)
  | .binary => "0b" ++ String.ofList (t.text.toList.drop 2)
  | .keyword .And => "&&"
  | .keyword .Or => "||"
  | .keyword .Not => "!"
  | .keyword .Xor => "^"
  | .keyword .Mod => "%"
  | .keyword .Is => "=="
  | .symbol .ampersand => "+"
  | .symbol .notEquals => "!="
  | .symbol .backslash => "/"
  | .symbol .equals => if mode == .condition && !besideEquals before after then "==" else "="
  | .symbol .dot => if followsPointer σ before t then "->" else "."
  | _ => t.text

def isOperatorWord : TokenKind → Bool
  | .keyword .And | .keyword .Or | .keyword .Not | .keyword .Xor | .keyword .Mod
  | .keyword .Is => true
  | _ => false

def bareName (σ : Symbols) (name : String) : String :=
  match constants.lookup (Text.lower name) with
  | some text => text
  | none => (σ.panel.color? name).getD name

def upperBound? (σ : Symbols) (arguments : List (List Token)) (values : List String) :
    Option String :=
  match arguments with
  | [array] :: _ => do
    let bounds ← σ.bounds.lookup (Text.lower array.text)
    let dimension ← match values with
      | [_, d] => Text.readUnsigned? Text.maxLong d
      | _ => some 1
    let bound ← if dimension == 0 then none else bounds[dimension - 1]?
    return if (Text.readSigned? bound).isSome then bound else "(" ++ bound ++ ")"
  | _ => none

def builtin? (σ : Symbols) (name : String) (arguments : List (List Token))
    (values : List String) : Option String :=
  match name, values with
  | "ubound", [_] | "ubound", [_, _] => upperBound? σ arguments values
  | "lbound", [_] | "lbound", [_, _] => some (toString σ.base)
  | "rgb", [r, g, b] => some (rgb σ.usesTft r g b)
  | _, _ => plainCall? name values

def namedCall (σ : Symbols) (name : String) (arguments : List (List Token))
    (values : List String) : String :=
  let word := Text.lower name
  match builtin? σ word arguments values with
  | some text => text
  | none =>
    if values.isEmpty || σ.isCallName word then called name values else indexed name values

/-- The white space in front of a token; there is none at the beginning and after `Not`. -/
def gapText (before : List Token) (t : Token) : String :=
  match before with
  | [] => ""
  | last :: _ => if last.kind == .keyword .Not then "" else t.gap

/-- The tokens of an expression in C++, where `before` holds those already written, nearest
first. -/
def write (σ : Symbols) (mode : Mode) (before ts : List Token) : String :=
  match ts with
  | [] => ""
  | t :: rest =>
    let gap := gapText before t
    if t.kind == .keyword .New then
      match rest with
      | [] => gap ++ "new"
      | object :: after =>
        if object.isWord then
          match _list : argumentList? after with
          | some (inside, close, tail) =>
            gap ++ "new " ++ object.text ++ "(" ++ Text.trim (write σ .value [] inside) ++ ")" ++
              write σ mode (close :: before) tail
          | none =>
            gap ++ "new " ++ object.text ++ "()" ++ write σ mode (object :: t :: before) after
        else gap ++ "new" ++ write σ mode (t :: before) (object :: after)
    else if t.isWord && !isOperatorWord t.kind then
      let isMember := before.head?.any (·.kind.isMember)
      match _list : argumentList? rest with
      | none =>
        gap ++ (if isMember then t.text else bareName σ t.text) ++ write σ mode (t :: before) rest
      | some (inside, close, tail) =>
        let text :=
          if isMember && mode != .target then
            t.text ++ "(" ++ Text.trim (write σ .value [] inside) ++ ")"
          else
            let arguments := splitArguments inside
            let name := Text.lower t.text
            let values := arguments.attach.mapIdx fun i piece =>
              let use := if mode == .target then .value else argumentMode name arguments.length i
              Text.trim (write σ use [] piece.1)
            if mode == .target then indexed t.text values
            else namedCall σ t.text arguments values
        gap ++ text ++ write σ mode (close :: before) tail
    else gap ++ spelling σ mode before t rest ++ write σ mode (t :: before) rest
termination_by ts.length
decreasing_by
  all_goals
    first
    | (have shorter := length_argumentList? _list
       simp only [List.length_cons] at shorter ⊢
       omega)
    | (have shorter := length_argumentList? _list
       have within := length_le_of_mem_splitArguments piece.2
       simp only [List.length_cons] at shorter ⊢
       omega)
    | (simp only [List.length_cons]
       omega)

def expression (σ : Symbols) (mode : Mode) (text : String) : String :=
  Text.trim (write σ mode [] (Token.ofLine text))

def value (σ : Symbols) (e : Expr) : String := expression σ .value e.text

def condition (σ : Symbols) (e : Expr) : String := expression σ .condition e.text

def target (σ : Symbols) (text : String) : String := expression σ .target text

end Cpp

end BasicSketch
