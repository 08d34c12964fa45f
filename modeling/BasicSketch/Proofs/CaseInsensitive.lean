import BasicSketch.Proofs.ProgramProvenance
import BasicSketch.Proofs.Renumbering

set_option autoImplicit false

/-! Letter case in the reading of a source. -/

namespace BasicSketch

open Text
open Statement (plain)
open Token (ofLine)

namespace LineForm

open Reader Phrase

theorem branchText_lower (ts : List Token) :
    branchText (ts.map Token.lower) = Text.lower (branchText ts) := by
  rw [branchText, Token.slice_lower, trim_lower, branchText]

def lowerParts (parts : List Token × Option (List Token)) : List Token × Option (List Token) :=
  (parts.1.map Token.lower, parts.2.map (List.map Token.lower))

theorem alike_ifParts {line : String} {rest : List Token} (inside : rest <:+: ofLine line) :
    Both (fun found found' => UpTo Expr.lower found.1 found'.1 ∧
        found'.2 = found.2.map lowerParts)
      (ifParts rest) (ifParts (rest.map Token.lower)) := by
  unfold ifParts
  rcases (finds_condition rest inside).elim with
    ⟨⟨c, left⟩, ⟨c', left'⟩, read, read', ⟨-, same⟩, lowered⟩ | ⟨e, e', read, read'⟩
  · obtain rfl : left' = left.map Token.lower := lowered
    rw [read, read']
    rcases left with _ | ⟨_, _ | ⟨t, ts⟩⟩
    · exact .found ⟨same, rfl⟩
    · exact .found ⟨same, rfl⟩
    · have parts := Token.splitAtTop_lower (· == .keyword .Else) 0 (t :: ts)
      rw [List.map_cons] at parts
      simp only [List.map_cons, splitElse, parts]
      rcases Token.splitAtTop (· == .keyword .Else) 0 (t :: ts) with
        ⟨_ | ⟨_, _⟩, _ | ⟨_, _⟩⟩
      · exact .refused _ _
      · exact .refused _ _
      · exact .found ⟨same, rfl⟩
      · exact .found ⟨same, rfl⟩
  · rw [read, read']
    exact .refused e e'

theorem alike_ofText (text : String) : Alike (ofText text) (ofText (Text.lower text)) := by
  induction n : text.length using Nat.strongRecOn generalizing text with
  | ind n ih =>
  subst n
  have same : UpTo Text.lower text (Text.lower text) := (lower_lower text).symm
  have lowered := Token.ofLine_lower text
  cases line : ofLine text with
  | nil =>
    rw [line, List.map_nil] at lowered
    rw [ofText_empty line, ofText_empty lowered]
    exact .untranslated same _ _
  | cons first rest =>
    rw [line, List.map_cons] at lowered
    have after : rest <:+: ofLine text := line ▸ (List.suffix_cons first rest).isInfix
    by_cases word : (first.kind == .keyword .If) = true
    · have word' : (first.lower.kind == .keyword .If) = true := word
      -- a branch is shorter than its line
      have branch {part : List Token} (within : Token.extent part ≤ Token.extent rest) :
          Alike (ofText (branchText part)) (ofText (branchText (part.map Token.lower))) := by
        rw [branchText_lower]
        exact ih _ (length_branchText_lt line within) _ rfl
      rw [ofText_if line word, ofText_if lowered word']
      rcases (alike_ifParts after).elim with
        ⟨⟨c, parts⟩, ⟨c', parts'⟩, read, read', condition, rfl⟩ | ⟨e, e', read, read'⟩
      · rw [read, read']
        match parts with
        | none => exact .action (congrArg Action.ifBlock condition)
        | some (thenPart, none) =>
          exact .inlineIf condition (branch (ifParts_within read).1)
        | some (thenPart, some []) =>
          exact .danglingElse same (branch (ifParts_within read).1)
        | some (thenPart, some (t :: ts)) =>
          obtain ⟨within, behind⟩ := ifParts_within read
          exact .inlineIfElse condition (branch within) (branch (behind (t :: ts) rfl).1)
      · rw [read, read']
        exact .untranslated same e e'
    · have word' : ¬(first.lower.kind == .keyword .If) = true := word
      rw [ofText_other line word, ofText_other lowered word']
      rcases (read_ofTokens same line).elim with
        ⟨form, form', read, read', known⟩ | ⟨e, e', read, read'⟩
      · rw [read, read']
        exact known.alike
      · rw [read, read']
        exact .untranslated same e e'

end LineForm

namespace BodyLine

inductive Alike : BodyLine → BodyLine → Prop where
  | leaves : Alike .leaves .leaves
  | ends : Alike .ends .ends
  | entry {r r' : Except LineError Action} (both : Both (UpTo Action.lower) r r') :
    Alike (.entry r) (.entry r')

theorem alike_ofTokens (body : BodyKind) {line : String} {ts : List Token}
    (inside : ts <:+: ofLine line) :
    Alike (ofTokens body ts) (ofTokens body (ts.map Token.lower)) := by
  have entry := ((finds_entry body).value inside).imp fun _ _ found => found.2
  cases ts with
  | nil => exact .entry entry
  | cons first rest =>
    have after : rest <:+: ofLine line := (List.suffix_cons first rest).isInfix.trans inside
    rw [List.map_cons] at entry ⊢
    unfold ofTokens
    simp only [Token.kind_lower]
    generalize first.kind = kind
    split
    · exact .leaves
    · exact .leaves
    · cases rest with
      | nil => exact .leaves
      | cons second behind =>
        have ended := Reader.finds_lineEnd.value
          ((List.suffix_cons second behind).isInfix.trans after)
        simp only [List.map_cons]
        by_cases closes : (second.kind == .keyword body.keyword) = true
        · have closes' : (second.lower.kind == .keyword body.keyword) = true := closes
          rw [if_pos closes, if_pos closes']
          rcases ended.elim with ⟨_, _, read, read', -⟩ | ⟨e, e', read, read'⟩
          · rw [read, read']
            exact .ends
          · rw [read, read']
            exact .entry (.refused e e')
        · have closes' : ¬(second.lower.kind == .keyword body.keyword) = true := closes
          rw [if_neg closes, if_neg closes']
          exact .leaves
    · exact .entry entry

theorem alike_ofLine {body : BodyKind} {text : String} {read : BodyLine}
    (here : ofTokens body (ofLine text) = read) :
    ∃ read', ofTokens body (ofLine (Text.lower text)) = read' ∧ Alike read read' := by
  refine ⟨_, rfl, ?_⟩
  rw [← here, Token.ofLine_lower]
  exact alike_ofTokens body (List.infix_refl _)

end BodyLine

namespace Statement

mutual

def lower : Statement → Statement
  | .plain line action => .plain line action.lower
  | .inlineIf line condition thenBranch => .inlineIf line condition.lower (lower thenBranch)
  | .inlineIfElse line condition thenBranch elseBranch =>
    .inlineIfElse line condition.lower (lower thenBranch) (lower elseBranch)
  | .every line interval body => .every line interval.lower (lowerAll body)

def lowerAll : List Statement → List Statement
  | [] => []
  | first :: rest => lower first :: lowerAll rest

end

theorem lowerAll_eq (sts : List Statement) : lowerAll sts = sts.map lower := by
  induction sts with
  | nil => rfl
  | cons st rest ih => rw [lowerAll, ih, List.map_cons]

end Statement

namespace Reading

theorem isEndDo_lower (text : String) : isEndDo (Text.lower text) = isEndDo text := by
  unfold isEndDo
  rw [Token.ofLine_lower]
  match ofLine text with
  | [] | [_] | [_, _] | _ :: _ :: _ :: _ => rfl

structure Alike (s t : Reading) : Prop where
  lines : t.lines = s.lines.map LogicalLine.lower
  line : t.line = s.line
  body : t.body = s.body

theorem alike_ofLines (ls : List LogicalLine) :
    Alike (ofLines ls) (ofLines (ls.map LogicalLine.lower)) :=
  ⟨rfl, rfl, rfl⟩

def Agree (r r' : Statement × Reading) : Prop := r.1.lower = r'.1.lower ∧ Alike r.2 r'.2

theorem after_lower (s : Reading) (a : Action) : s.after a.lower = s.after a := by
  cases a <;> rfl

variable {s t : Reading}

theorem Alike.after {a a' : Action} (alike : Alike s t) (same : UpTo Action.lower a a') :
    Alike (s.after a) (t.after a') := by
  rw [← after_lower s a, ← after_lower t a', same]
  cases a'.lower <;> exact ⟨alike.lines, alike.line, by first | rfl | exact alike.body⟩

theorem Alike.atEnd (alike : Alike s t) (every : Option Nat) :
    Alike (s.atEnd every) (t.atEnd every) :=
  ⟨by rw [lines_atEnd, lines_atEnd, alike.lines], by rw [line_atEnd, line_atEnd, alike.line],
    by rw [body_atEnd, body_atEnd, alike.body]⟩

theorem Alike.afterThen {f f' : LineForm} (line : t.line = s.line)
    (onward : Alike (s.statement s.line f).1.2 (t.statement s.line f').1.2) :
    Alike (s.afterThen f) (t.afterThen f') := by
  rw [Reading.afterThen, Reading.afterThen, line]
  exact ⟨onward.lines, onward.line, rfl⟩

theorem Alike.opens {s' : Reading} {l : LogicalLine} (alike : Alike s t) (opens : Opens s l s') :
    ∃ t', Opens t l.lower t' ∧ Alike s' t' := by
  cases opens with
  | free free =>
    exact ⟨_, .free (alike.body.trans free), alike.lines, rfl, alike.body⟩
  | leaves inside leaves =>
    obtain ⟨_, leaves', ⟨⟩⟩ := BodyLine.alike_ofLine leaves
    exact ⟨_, .leaves (alike.body.trans inside) leaves', alike.lines, rfl, rfl⟩

theorem Alike.continues {s' : Reading} {l : LogicalLine} {a : Action} (alike : Alike s t)
    (continues : Continues s l a s') :
    ∃ a' t', Continues t l.lower a' t' ∧ UpTo Action.lower a a' ∧ Alike s' t' := by
  cases continues with
  | ends inside ends =>
    obtain ⟨_, ends', ⟨⟩⟩ := BodyLine.alike_ofLine ends
    exact ⟨_, _, .ends (alike.body.trans inside) ends', rfl, alike.lines, rfl, rfl⟩
  | entry inside entry =>
    obtain ⟨_, entry', kind⟩ := BodyLine.alike_ofLine entry
    cases kind with
    | entry both =>
      cases both with
      | found same =>
        exact ⟨_, _, .entry (alike.body.trans inside) entry', same, alike.lines, rfl, alike.body⟩
  | unread inside unread =>
    obtain ⟨_, unread', kind⟩ := BodyLine.alike_ofLine unread
    have same : Text.lower l.text = Text.lower (Text.lower l.text) := (lower_lower _).symm
    cases kind with
    | entry both =>
      cases both
      exact ⟨_, _, .unread (alike.body.trans inside) unread', congrArg Action.untranslated same,
        alike.lines, rfl, alike.body⟩

theorem agree_run : Always
    (fun s n form r => ∀ t form', Alike s t → LineForm.Alike form form' →
      Agree r (t.statement n form').1)
    (fun s l r => ∀ t, Alike s t → Agree r (t.lineStatement l.lower).1)
    (fun s every r => ∀ t, Alike s t →
      r.1.map Statement.lower = (t.statements every).1.1.map Statement.lower ∧
        Alike r.2 (t.statements every).1.2) := by
  apply run_induction
  case leaf =>
    intro s n f a s' leaf t form' alike related
    cases leaf with
    | action =>
      cases related with
      | action same =>
        rw [statement_action]
        exact ⟨congrArg (plain n) same, alike.after same⟩
    | malformed =>
      cases related with
      | malformed same =>
        rw [statement_malformed]
        exact ⟨congrArg (plain n ∘ Action.malformedHeader) same,
          alike.lines, alike.line, alike.body⟩
    | untranslated =>
      cases related with
      | untranslated same =>
        rw [statement_untranslated]
        exact ⟨congrArg (plain n ∘ Action.untranslated) same,
          alike.lines, alike.line, alike.body⟩
  case every =>
    intro s n interval r _ ih t form' alike related
    cases related with
    | every same =>
      obtain ⟨body, onward⟩ := ih t alike
      rw [statement_every, alike.line]
      refine ⟨?_, onward⟩
      rw [Statement.lower, Statement.lower, Statement.lowerAll_eq, Statement.lowerAll_eq, body,
        same]
  case inlineIf =>
    intro s n c f ih t form' alike related
    cases related with
    | inlineIf same branch =>
      obtain ⟨thenBranch, onward⟩ := ih t _ alike branch
      rw [statement_inlineIf, alike.line]
      refine ⟨?_, onward.lines, onward.line, rfl⟩
      rw [Statement.lower, Statement.lower, thenBranch, same]
  case inlineIfElse =>
    intro s n c f g ih ih' t form' alike related
    cases related with
    | inlineIfElse same branch other =>
      obtain ⟨thenBranch, onward⟩ := ih t _ alike branch
      -- the second branch is read from where the first one has come to
      have middle := Alike.afterThen alike.line onward
      obtain ⟨elseBranch, onward'⟩ := ih' _ _ middle other
      rw [statement_inlineIfElse, middle.line, alike.line]
      refine ⟨?_, onward'.lines, onward'.line, rfl⟩
      rw [Statement.lower, Statement.lower, thenBranch, elseBranch, same]
  case danglingElse =>
    intro s n text f ih t form' alike related
    cases related with
    | danglingElse same branch =>
      obtain ⟨-, onward⟩ := ih t _ alike branch
      have middle := Alike.afterThen alike.line onward
      rw [statement_danglingElse]
      exact ⟨congrArg (plain n ∘ Action.untranslated) same,
        middle.lines, middle.line, middle.body⟩
  case opens =>
    intro s l s' r opens ih t alike
    obtain ⟨t', opens', onward⟩ := alike.opens opens
    rw [lineStatement_opens opens']
    exact ih _ _ onward (LineForm.alike_ofText l.text)
  case continues =>
    intro s l a s' continues t alike
    obtain ⟨a', t', continues', same, onward⟩ := alike.continues continues
    rw [lineStatement_continues continues']
    exact ⟨congrArg (plain l.number) same, onward⟩
  case ended =>
    intro s every none_left t alike
    have none_left' : t.lines = [] := by rw [alike.lines, none_left, List.map_nil]
    rw [statements_end every none_left']
    exact ⟨rfl, alike.atEnd every⟩
  case closed =>
    intro s every l rest lines closes t alike
    have lines' : t.lines = l.lower :: rest.map LogicalLine.lower := by
      rw [alike.lines, lines, List.map_cons]
    have closes' : (every.isSome && isEndDo l.lower.text) = true := by
      rw [LogicalLine.lower, isEndDo_lower]
      exact closes
    rw [statements_closed lines' closes']
    exact ⟨rfl, rfl, alike.line, alike.body⟩
  case cons =>
    intro s every l rest first r lines stays read later ih ih' t alike
    have lines' : t.lines = l.lower :: rest.map LogicalLine.lower := by
      rw [alike.lines, lines, List.map_cons]
    have stays' : ¬(every.isSome && isEndDo l.lower.text) = true := by
      rw [LogicalLine.lower, isEndDo_lower]
      exact stays
    obtain ⟨statement, onward⟩ :=
      ih { t with lines := rest.map LogicalLine.lower } ⟨rfl, alike.line, alike.body⟩
    obtain ⟨more, onward'⟩ := ih' _ onward
    rw [statements_cons lines' stays']
    refine ⟨?_, onward'⟩
    rw [List.map_cons, List.map_cons, statement, more]

end Reading

/-- Of the source in lower case the same statements are read on the same lines, equal up to letter
case. -/
theorem reading_case_insensitive (source : String) :
    (Program.ofSource (lower source)).statements.map Statement.lower =
      (Program.ofSource source).statements.map Statement.lower := by
  have agree := Reading.agree_run.lines _ none _
    (Reading.alike_ofLines (LogicalLine.ofSource source))
  rw [← LogicalLine.ofSource_lower] at agree
  exact agree.1.symm

end BasicSketch
