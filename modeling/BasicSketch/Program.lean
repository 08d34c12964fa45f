import BasicSketch.Event
import BasicSketch.LineForm
import BasicSketch.LogicalLine

set_option autoImplicit false

/-! Programs: the statements of a source text. -/

namespace BasicSketch

structure Reading where
  lines : List LogicalLine
  line : Nat
  body : Option BodyKind
  events : List Event

namespace BodyKind

def keyword : BodyKind → Keyword
  | .record => .TypeWord
  | .enumeration => .Enum

def entry : BodyKind → Reader Action
  | .record => Phrase.typeField
  | .enumeration => Phrase.enumMember

def endAction : BodyKind → Action
  | .record => .typeEnd
  | .enumeration => .enumEnd

end BodyKind

inductive BodyLine where
  | leaves
  | ends
  | entry (result : Except LineError Action)

namespace BodyLine

def ofTokens (body : BodyKind) (ts : List Token) : BodyLine :=
  match ts with
  | [] => .entry (body.entry.value [])
  | first :: rest =>
    match first.kind with
    | .keyword .Sub | .keyword .Function => .leaves
    | .keyword .End =>
      match rest with
      | [] => .leaves
      | second :: after =>
        if second.kind == .keyword body.keyword then
          match Reader.lineEnd.value after with
          | .ok _ => .ends
          | .error e => .entry (.error e)
        else .leaves
    | _ => .entry (body.entry.value (first :: rest))

end BodyLine

namespace Reading

def ofLines (lines : List LogicalLine) : Reading := ⟨lines, 0, none, []⟩

def report (s : Reading) (e : Event) : Reading := { s with events := s.events ++ [e] }

@[simp] theorem lines_report (s : Reading) (e : Event) : (s.report e).lines = s.lines := rfl

def after (s : Reading) : Action → Reading
  | .typeStart _ => { s with body := some .record }
  | .enumStart _ => { s with body := some .enumeration }
  | _ => s

@[simp] theorem lines_after (s : Reading) (a : Action) : (s.after a).lines = s.lines := by
  cases a <;> rfl

def leave (s : Reading) (number : Nat) (body : BodyKind) : Reading :=
  { s with
    line := number
    body := none
    events := s.events ++ [.unclosedBody number body] }

@[simp] theorem lines_leave (s : Reading) (number : Nat) (body : BodyKind) :
    (s.leave number body).lines = s.lines := rfl

theorem length_rest_le {s : Reading} {line : LogicalLine} {rest : List LogicalLine}
    (lines : s.lines = line :: rest) : rest.length ≤ s.lines.length := by
  simp [lines]

def isEndDo (text : String) : Bool :=
  match Token.ofLine text with
  | [first, second] => first.kind == .keyword .End && second.kind == .keyword .Do
  | _ => false

/-- A result together with a reading that has not fewer lines behind it than `s`. -/
abbrev Onward (s : Reading) (α : Type) : Type :=
  { r : α × Reading // r.2.lines.length ≤ s.lines.length }

mutual

/-- The statement of a form that stands on line `number`. Branches are read as lines of their
own, outside of any body, with the number of the line read last. -/
def statement (s : Reading) (number : Nat) (form : LineForm) : Onward s Statement :=
  match form with
  | .action action => ⟨(.plain number action, s.after action), by simp⟩
  | .malformed text e =>
    ⟨(.plain number (.malformedHeader text), s.report (.malformedHeader s.line e)), by simp⟩
  | .untranslated text e =>
    ⟨(.plain number (.untranslated text), s.report (.lineKept number e text)), by simp⟩
  | .every interval =>
    let ⟨(body, s'), onward⟩ := statements s (some s.line)
    ⟨(.every number interval body, s'), onward⟩
  | .inlineIf condition thenForm =>
    let ⟨(thenBranch, s'), onward⟩ := statement s s.line thenForm
    ⟨(.inlineIf number condition thenBranch, { s' with body := none }), onward⟩
  | .inlineIfElse condition thenForm elseForm =>
    let ⟨(thenBranch, s'), onward⟩ := statement s s.line thenForm
    let ⟨(elseBranch, s''), onward'⟩ := statement { s' with body := none } s'.line elseForm
    ⟨(.inlineIfElse number condition thenBranch elseBranch, { s'' with body := none }),
      Nat.le_trans onward' onward⟩
  | .danglingElse text thenForm =>
    let ⟨(_, s'), onward⟩ := statement s s.line thenForm
    let s'' := { s' with body := none }
    ⟨(.plain number (.untranslated text),
      s''.report (.lineKept number (.lineEnd "statement after ELSE") text)), onward⟩
termination_by (s.lines.length, 0, sizeOf form)
decreasing_by
  all_goals
    try simp only at onward
    simp only [Prod.lex_def, true_and, LineForm.every.sizeOf_spec, LineForm.inlineIf.sizeOf_spec,
      LineForm.inlineIfElse.sizeOf_spec, LineForm.danglingElse.sizeOf_spec]
    omega

def lineStatement (s : Reading) (line : LogicalLine) : Onward s Statement :=
  let s' := { s with line := line.number }
  match s.body with
  | none => statement s' line.number (LineForm.ofText line.text)
  | some body =>
    match BodyLine.ofTokens body (Token.ofLine line.text) with
    | .leaves =>
      statement (s.leave line.number body) line.number (LineForm.ofText line.text)
    | .ends => ⟨(.plain line.number body.endAction, { s' with body := none }), Nat.le_refl _⟩
    | .entry (.ok action) => ⟨(.plain line.number action, s'), Nat.le_refl _⟩
    | .entry (.error e) =>
      ⟨(.plain line.number (.untranslated line.text),
        s'.report (.lineKept line.number e line.text)), Nat.le_refl _⟩
termination_by (s.lines.length, 1, 0)

/-- The statements of the lines to come, up to the end of the source. The body of an `Every` that
was opened on line `every` ends at its `End Do`. -/
def statements (s : Reading) (every : Option Nat) : Onward s (List Statement) :=
  match _lines : s.lines with
  | [] =>
    match every with
    | none => ⟨([], s), Nat.le_refl _⟩
    | some opened => ⟨([], s.report (.unclosedEvery opened)), Nat.le_refl _⟩
  | line :: rest =>
    let s' := { s with lines := rest }
    if every.isSome && isEndDo line.text then ⟨([], s'), length_rest_le _lines⟩
    else
      let ⟨(first, s1), onward⟩ := lineStatement s' line
      let ⟨(more, s2), onward'⟩ := statements s1 every
      ⟨(first :: more, s2), Nat.le_trans onward' (Nat.le_trans onward (length_rest_le _lines))⟩
termination_by (s.lines.length, 0, 0)
decreasing_by
  all_goals
    simp only [s', Prod.lex_def, _lines, List.length_cons] at *
    omega

end

end Reading

structure Program where
  statements : List Statement
  events : List Event

namespace Program

def ofSource (source : String) : Program :=
  let ⟨(statements, reading), _⟩ := (Reading.ofLines (LogicalLine.ofSource source)).statements none
  ⟨statements, reading.events⟩

end Program

end BasicSketch
