import BasicSketch.Proofs.Renumbering
import BasicSketch.Proofs.SourceLines

set_option autoImplicit false

/-! Sources that are put together. -/

namespace BasicSketch

namespace Text

theorem splitLines_append_ended {a : List Char} (ended : a = [] ∨ a.getLast? = some '\n')
    (b : List Char) : splitLines (a ++ b) = splitLines a ++ splitLines b := by
  induction a using line_induction with
  | last cs flat =>
    rcases ended with rfl | feed
    · rfl
    · exact absurd (List.mem_of_getLast? feed) flat
  | line cs rest flat ih =>
    have later : rest = [] ∨ rest.getLast? = some '\n' := by
      cases rest with
      | nil => exact .inl rfl
      | cons d more => exact .inr (by simpa using ended)
    rw [List.append_assoc, List.cons_append, splitLines_append flat, ih later,
      splitLines_append flat, List.cons_append]

theorem lines_append {a : String} (ended : a = "" ∨ a.toList.getLast? = some '\n') (b : String) :
    lines (a ++ b) = lines a ++ lines b := by
  have ended' : a.toList = [] ∨ a.toList.getLast? = some '\n' := by simpa using ended
  rw [lines, lines, lines, String.toList_append, splitLines_append_ended ended', List.map_append]

end Text

namespace Reading

def Closed (s : Reading) : Prop := ∀ line, Event.unclosedEvery line ∉ s.events

theorem Closed.of_events {s t : Reading} (closed : t.Closed) (grown : s.events <+: t.events) :
    s.Closed :=
  fun line mem => closed line (grown.subset mem)

theorem events_after (s : Reading) (a : Action) : (s.after a).events = s.events := by
  cases a <;> rfl

theorem events_run : Always (fun s _ _ r => s.events <+: r.2.events)
    (fun s _ r => s.events <+: r.2.events) (fun s _ r => s.events <+: r.2.events) := by
  apply run_induction
  case leaf =>
    intro s n f a t leaf
    cases leaf with
    | action => simp only [events_after, List.prefix_rfl]
    | _ => exact List.prefix_append _ _
  case every => intro s n interval r _ ih; exact ih
  case inlineIf => intro s n c f ih; exact ih
  case inlineIfElse => intro s n c f g ih ih'; exact ih.trans ih'
  case danglingElse => intro s n text f ih; exact ih.trans (List.prefix_append _ _)
  case opens =>
    intro s l t r opens ih
    cases opens with
    | free => exact ih
    | leaves => exact (List.prefix_append _ _).trans ih
  case continues =>
    intro s l a t continues
    cases continues with
    | unread => exact List.prefix_append _ _
    | _ => exact List.prefix_rfl
  case ended =>
    intro s every _
    cases every with
    | none => exact List.prefix_rfl
    | some opened => exact List.prefix_append _ _
  case closed => intro s every l rest _ _; exact List.prefix_rfl
  case cons => intro s every l rest first r _ _ _ _ ih ih'; exact ih.trans ih'

def extend (s : Reading) (more : List LogicalLine) : Reading := { s with lines := s.lines ++ more }

theorem line_extend (s : Reading) (more : List LogicalLine) : (s.extend more).line = s.line := rfl

theorem afterThen_extend {s : Reading} {more : List LogicalLine} {form : LineForm}
    (first : ((s.extend more).statement s.line form).1 =
      ((s.statement s.line form).1.1, (s.statement s.line form).1.2.extend more)) :
    (s.extend more).afterThen form = (s.afterThen form).extend more := by
  rw [afterThen, line_extend, first]
  rfl

theorem extend_after (s : Reading) (more : List LogicalLine) (a : Action) :
    (s.extend more).after a = (s.after a).extend more := by
  cases a <;> rfl

/-- What lines behind those that are left change. -/
def Extends (more : List LogicalLine) (s : Reading) (every : Option Nat)
    (r : List Statement × Reading) : Prop :=
  match every with
  | some _ => ((s.extend more).statements every).1 = (r.1, r.2.extend more)
  | none =>
    ((s.extend more).statements none).1 =
      (r.1 ++ ((r.2.extend more).statements none).1.1, ((r.2.extend more).statements none).1.2)

theorem extends_run (more : List LogicalLine) : Always
    (fun s n form r => r.2.Closed → ((s.extend more).statement n form).1 = (r.1, r.2.extend more))
    (fun s l r => r.2.Closed → ((s.extend more).lineStatement l).1 = (r.1, r.2.extend more))
    (fun s every r => r.2.Closed → Extends more s every r) := by
  apply run_induction
  case leaf =>
    intro s n f a t leaf _
    cases leaf with
    | action => rw [statement_action, extend_after]
    | malformed =>
      rw [statement_malformed]
      rfl
    | untranslated =>
      rw [statement_untranslated]
      rfl
  case every =>
    rintro s n interval _ rfl ih closed
    have body : ((s.extend more).statements (some s.line)).1 = _ := ih closed
    rw [statement_every, line_extend, body]
  case inlineIf =>
    intro s n c f ih closed
    have branch := ih closed
    rw [statement_inlineIf, line_extend, branch]
    rfl
  case inlineIfElse =>
    intro s n c f g ih ih' closed
    have first := ih (closed.of_events (events_run.form (s.afterThen f) _ g))
    have second := ih' closed
    rw [statement_inlineIfElse, afterThen_extend first, line_extend, line_extend, first, second]
    rfl
  case danglingElse =>
    intro s n text f ih closed
    have first := ih (closed.of_events (List.prefix_append _ _))
    rw [statement_danglingElse, afterThen_extend first]
    rfl
  case opens =>
    intro s l t r opens ih closed
    have opens' : Opens (s.extend more) l (t.extend more) := by
      cases opens with
      | free free => exact .free free
      | leaves inside leaves => exact .leaves inside leaves
    rw [lineStatement_opens opens']
    exact ih closed
  case continues =>
    intro s l a t continues _
    have continues' : Continues (s.extend more) l a (t.extend more) := by
      cases continues with
      | ends inside ends => exact .ends inside ends
      | entry inside entry => exact .entry inside entry
      | unread inside unread => exact .unread inside unread
    rw [lineStatement_continues continues']
  case ended =>
    intro s every none_left closed
    cases every with
    | none => rfl
    | some opened =>
      -- here the `Every` has run on to the end
      exact absurd (List.mem_append_right _ List.mem_cons_self) (closed opened)
  case closed =>
    intro s every l rest lines closes _
    have lines' : (s.extend more).lines = l :: (rest ++ more) := by
      rw [extend, lines, List.cons_append]
    cases every with
    | none => simp at closes
    | some opened =>
      rw [Extends, statements_closed lines' closes]
      rfl
  case cons =>
    intro s every l rest first r lines stays read later ih ih' closed
    have lines' : (s.extend more).lines = l :: (rest ++ more) := by
      rw [extend, lines, List.cons_append]
    have grown : first.2.events <+: r.2.events := later ▸ events_run.lines first.2 every
    have here : (({ s with lines := rest }.extend more).lineStatement l).1 =
        (first.1, first.2.extend more) := ih (closed.of_events grown)
    have onward := ih' closed
    have step := @statements_cons (s.extend more) every l _ lines' stays
    have line : ({ s.extend more with lines := rest ++ more }.lineStatement l).1 =
        (first.1, first.2.extend more) := here
    rw [line] at step
    cases every with
    | none =>
      rw [Extends] at onward ⊢
      rw [step, onward]
      rfl
    | some opened =>
      rw [Extends] at onward ⊢
      rw [step, onward]

def ofSource (source : String) : Reading :=
  ((ofLines (LogicalLine.ofSource source)).statements none).1.2

end Reading

/-- A source part that leaves nothing open leaves what follows as it is but for the line numbers. -/
theorem parsing_compositional (a b : String) (whole : a = "" ∨ a.toList.getLast? = some '\n')
    (finished : LogicalLine.pendingAfter 1 none (Text.lines a) = none)
    (closed : ∀ line, Event.unclosedEvery line ∉ (Program.ofSource a).events)
    (outside : (Reading.ofSource a).body = none) :
    (Program.ofSource (a ++ b)).statements =
      (Program.ofSource a).statements ++
        (Program.ofSource b).statements.map (Statement.renumber (· + (Text.lines a).length)) := by
  let first := Reading.ofLines (LogicalLine.ofSource a)
  let more := (LogicalLine.ofSource b).map (LogicalLine.renumber (· + (Text.lines a).length))
  have lines : LogicalLine.ofSource (a ++ b) = LogicalLine.ofSource a ++ more := by
    rw [LogicalLine.ofSource, Text.lines_append whole, LogicalLine.join_append finished]
    exact congrArg _ (LogicalLine.join_shift (Text.lines a).length 1 none (Text.lines b))
  -- reading the first part goes on with the lines of the second
  have onward := (Reading.extends_run more).lines first none closed
  rw [Reading.Extends] at onward
  -- and reads of them what it would at the beginning
  have begins : Reading.Renumbered (· + (Text.lines a).length)
      (Reading.ofLines (LogicalLine.ofSource b)) ((Reading.ofSource a).extend more) :=
    ⟨by rw [Reading.extend, Reading.ofSource, Reading.lines_of_statements]; rfl, outside⟩
  obtain ⟨second, -⟩ := Reading.copies_run.lines _ none _ none rfl begins
  have all : (Program.ofSource (a ++ b)).statements =
      ((first.extend more).statements none).1.1 := by
    change ((Reading.ofLines (LogicalLine.ofSource (a ++ b))).statements none).1.1 = _
    rw [lines]
    rfl
  rw [all, onward]
  exact congrArg ((Program.ofSource a).statements ++ ·) second

theorem parsing_compositional_continued :
    let a := "total = 1 + _\n  2 ' both\n\n"
    let b := "If total = 3 Then Every 5 Do\n  total = 4"
    a.toList.getLast? = some '\n' ∧ LogicalLine.pendingAfter 1 none (Text.lines a) = none ∧
      (∀ line, Event.unclosedEvery line ∉ (Program.ofSource a).events) ∧
      (Reading.ofSource a).body = none ∧
      (Program.ofSource (a ++ b)).statements =
        (Program.ofSource a).statements ++
          (Program.ofSource b).statements.map (Statement.renumber (· + 3)) := by
  intro a b
  have whole : a.toList.getLast? = some '\n' := by decide +kernel
  have lines : LogicalLine.ofSource a = [⟨1, "total = 1 + 2"⟩] := by decide +kernel
  have form : LineForm.ofText "total = 1 + 2" = .action (.assign "total" ⟨"1 + 2"⟩) := by
    rw [LineForm.ofText]
    decide +kernel
  -- the one line is read, and then there is none
  have read : ((Reading.ofLines [⟨1, "total = 1 + 2"⟩]).statements none).1.2 =
      { Reading.ofLines [] with line := 1 } := by
    rw [Reading.statements_cons rfl (by simp), Reading.lineStatement_opens (.free rfl), form,
      Reading.statement_action, Reading.statements_end none rfl]
    rfl
  have closed : ∀ line, Event.unclosedEvery line ∉ (Program.ofSource a).events := by
    change ∀ line, Event.unclosedEvery line ∉
      ((Reading.ofLines (LogicalLine.ofSource a)).statements none).1.2.events
    rw [lines, read]
    exact fun _ => List.not_mem_nil
  have outside : (Reading.ofSource a).body = none := by
    rw [Reading.ofSource, lines, read]
    rfl
  have finished : LogicalLine.pendingAfter 1 none (Text.lines a) = none := by decide +kernel
  have count : (Text.lines a).length = 3 := by decide +kernel
  have both := parsing_compositional a b (.inr whole) finished closed outside
  rw [count] at both
  exact ⟨whole, finished, closed, outside, both⟩

end BasicSketch
