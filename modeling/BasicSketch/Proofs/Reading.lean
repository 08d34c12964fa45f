import BasicSketch.Program

set_option autoImplicit false

/-! What reading a source does, step by step. -/

namespace BasicSketch.Reading

theorem statement_action (s : Reading) (n : Nat) (a : Action) :
    (s.statement n (.action a)).1 = (.plain n a, s.after a) := by
  rw [statement]

theorem statement_malformed (s : Reading) (n : Nat) (text : String) (e : LineError) :
    (s.statement n (.malformed text e)).1 =
      (.plain n (.malformedHeader text), s.report (.malformedHeader s.line e)) := by
  rw [statement]

theorem statement_untranslated (s : Reading) (n : Nat) (text : String) (e : LineError) :
    (s.statement n (.untranslated text e)).1 =
      (.plain n (.untranslated text), s.report (.lineKept n e text)) := by
  rw [statement]

theorem statement_every (s : Reading) (n : Nat) (interval : Expr) :
    (s.statement n (.every interval)).1 =
      (.every n interval (s.statements (some s.line)).1.1,
        (s.statements (some s.line)).1.2) := by
  rw [statement]

theorem statement_inlineIf (s : Reading) (n : Nat) (c : Expr) (f : LineForm) :
    (s.statement n (.inlineIf c f)).1 =
      (.inlineIf n c (s.statement s.line f).1.1,
        { (s.statement s.line f).1.2 with body := none }) := by
  rw [statement]

def afterThen (s : Reading) (f : LineForm) : Reading :=
  { (s.statement s.line f).1.2 with body := none }

theorem length_afterThen_le (s : Reading) (f : LineForm) :
    (s.afterThen f).lines.length ≤ s.lines.length :=
  (s.statement s.line f).2

theorem statement_inlineIfElse (s : Reading) (n : Nat) (c : Expr) (f g : LineForm) :
    (s.statement n (.inlineIfElse c f g)).1 =
      (.inlineIfElse n c (s.statement s.line f).1.1
          ((s.afterThen f).statement (s.afterThen f).line g).1.1,
        { ((s.afterThen f).statement (s.afterThen f).line g).1.2 with body := none }) := by
  rw [statement]
  rfl

theorem statement_danglingElse (s : Reading) (n : Nat) (text : String) (f : LineForm) :
    (s.statement n (.danglingElse text f)).1 =
      (.plain n (.untranslated text),
        (s.afterThen f).report (.lineKept n (.lineEnd "statement after ELSE") text)) := by
  rw [statement]
  rfl

variable {s t : Reading} {every : Option Nat} {line : LogicalLine} {body : BodyKind} {a : Action}
  {rest : List LogicalLine}

/-- A form of a single statement: its action and the reading behind it. -/
inductive Leaf (s : Reading) (n : Nat) : LineForm → Action → Reading → Prop
  | action (a : Action) : Leaf s n (.action a) a (s.after a)
  | malformed (text : String) (e : LineError) :
    Leaf s n (.malformed text e) (.malformedHeader text) (s.report (.malformedHeader s.line e))
  | untranslated (text : String) (e : LineError) :
    Leaf s n (.untranslated text e) (.untranslated text) (s.report (.lineKept n e text))

/-- A line that belongs to no body, or ends one without an end of its own: the reading that its
form is read in. -/
inductive Opens (s : Reading) (line : LogicalLine) : Reading → Prop
  | free (free : s.body = none) : Opens s line { s with line := line.number }
  | leaves {body : BodyKind} (inside : s.body = some body)
    (leaves : BodyLine.ofTokens body (Token.ofLine line.text) = .leaves) :
    Opens s line (s.leave line.number body)

/-- A line of a body: its action and the reading behind it. -/
inductive Continues (s : Reading) (line : LogicalLine) : Action → Reading → Prop
  | ends {body : BodyKind} (inside : s.body = some body)
    (ends : BodyLine.ofTokens body (Token.ofLine line.text) = .ends) :
    Continues s line body.endAction { s with line := line.number, body := none }
  | entry {body : BodyKind} {a : Action} (inside : s.body = some body)
    (entry : BodyLine.ofTokens body (Token.ofLine line.text) = .entry (.ok a)) :
    Continues s line a { s with line := line.number }
  | unread {body : BodyKind} {e : LineError} (inside : s.body = some body)
    (unread : BodyLine.ofTokens body (Token.ofLine line.text) = .entry (.error e)) :
    Continues s line (.untranslated line.text)
      ({ s with line := line.number }.report (.lineKept line.number e line.text))

theorem Leaf.kept {n : Nat} {f : LineForm} (leaf : Leaf s n f a t) :
    t.lines = s.lines ∧ t.line = s.line := by
  cases leaf with
  | action => cases a <;> exact ⟨rfl, rfl⟩
  | _ => exact ⟨rfl, rfl⟩

theorem Opens.kept (opens : Opens s line t) :
    t.lines = s.lines ∧ t.line = line.number ∧ t.body = none := by
  cases opens with
  | free free => exact ⟨rfl, rfl, free⟩
  | leaves => exact ⟨rfl, rfl, rfl⟩

theorem Continues.kept (continues : Continues s line a t) :
    t.lines = s.lines ∧ t.line = line.number := by
  cases continues <;> exact ⟨rfl, rfl⟩

theorem lineStatement_opens (opens : Opens s line t) :
    (s.lineStatement line).1 = (t.statement line.number (LineForm.ofText line.text)).1 := by
  obtain ⟨lines, number, inner, events⟩ := s
  cases opens with
  | free free =>
    obtain rfl : inner = none := free
    rw [lineStatement]
  | leaves inside leaves =>
    obtain rfl : inner = some _ := inside
    simp only [lineStatement, leaves]

theorem lineStatement_continues (continues : Continues s line a t) :
    (s.lineStatement line).1 = (.plain line.number a, t) := by
  obtain ⟨lines, number, inner, events⟩ := s
  cases continues with
  | ends inside read | entry inside read | unread inside read =>
    obtain rfl : inner = some _ := inside
    simp only [lineStatement, read]

def atEnd (s : Reading) : Option Nat → Reading
  | none => s
  | some opened => s.report (.unclosedEvery opened)

theorem statements_end (every : Option Nat) (none_left : s.lines = []) :
    (s.statements every).1 = ([], s.atEnd every) := by
  rw [statements.eq_def]
  split
  · cases every <;> rfl
  · simp_all

theorem statements_closed (lines : s.lines = line :: rest)
    (closes : (every.isSome && isEndDo line.text) = true) :
    (s.statements every).1 = ([], { s with lines := rest }) := by
  rw [statements.eq_def]
  split
  · simp_all
  · rename_i line' rest' eq
    obtain ⟨rfl, rfl⟩ : line = line' ∧ rest = rest' := by simpa [lines] using eq
    simp [closes]

theorem statements_cons (lines : s.lines = line :: rest)
    (stays : ¬(every.isSome && isEndDo line.text) = true) :
    (s.statements every).1 =
      (({ s with lines := rest }.lineStatement line).1.1 ::
          (({ s with lines := rest }.lineStatement line).1.2.statements every).1.1,
        (({ s with lines := rest }.lineStatement line).1.2.statements every).1.2) := by
  rw [statements.eq_def]
  split
  · simp_all
  · rename_i line' rest' eq
    obtain ⟨rfl, rfl⟩ : line = line' ∧ rest = rest' := by simpa [lines] using eq
    simp [stays]

/-- What holds of every reading, of a form, of a line and of the lines to come. -/
structure Always (form : Reading → Nat → LineForm → Statement × Reading → Prop)
    (line : Reading → LogicalLine → Statement × Reading → Prop)
    (lines : Reading → Option Nat → List Statement × Reading → Prop) : Prop where
  form : ∀ s n f, form s n f (s.statement n f).1
  lines : ∀ s every, lines s every (s.statements every).1
  line : ∀ s l, line s l (s.lineStatement l).1

theorem run_induction {form : Reading → Nat → LineForm → Statement × Reading → Prop}
    {line : Reading → LogicalLine → Statement × Reading → Prop}
    {lines : Reading → Option Nat → List Statement × Reading → Prop}
    (leaf : ∀ s n f a t, Leaf s n f a t → form s n f (.plain n a, t))
    (every : ∀ s n interval r, (s.statements (some s.line)).1 = r → lines s (some s.line) r →
      form s n (.every interval) (.every n interval r.1, r.2))
    (inlineIf : ∀ s n c f, form s s.line f (s.statement s.line f).1 →
      form s n (.inlineIf c f) (.inlineIf n c (s.statement s.line f).1.1, s.afterThen f))
    (inlineIfElse : ∀ s n c f g, form s s.line f (s.statement s.line f).1 →
      form (s.afterThen f) (s.afterThen f).line g
        ((s.afterThen f).statement (s.afterThen f).line g).1 →
      form s n (.inlineIfElse c f g)
        (.inlineIfElse n c (s.statement s.line f).1.1
          ((s.afterThen f).statement (s.afterThen f).line g).1.1, (s.afterThen f).afterThen g))
    (danglingElse : ∀ s n text f, form s s.line f (s.statement s.line f).1 →
      form s n (.danglingElse text f) (.plain n (.untranslated text),
        (s.afterThen f).report (.lineKept n (.lineEnd "statement after ELSE") text)))
    (opens : ∀ s l t r, Opens s l t → form t l.number (LineForm.ofText l.text) r → line s l r)
    (continues : ∀ s l a t, Continues s l a t → line s l (.plain l.number a, t))
    (ended : ∀ s every, s.lines = [] → lines s every ([], s.atEnd every))
    (closed : ∀ s every l rest, s.lines = l :: rest →
      (every.isSome && isEndDo l.text) = true → lines s every ([], { s with lines := rest }))
    (cons : ∀ s every l rest first r, s.lines = l :: rest →
      ¬(every.isSome && isEndDo l.text) = true →
      ({ s with lines := rest }.lineStatement l).1 = first → (first.2.statements every).1 = r →
      line { s with lines := rest } l first → lines first.2 every r →
      lines s every (first.1 :: r.1, r.2)) : Always form line lines := by
  suffices all : (∀ s n f, form s n f (s.statement n f).1) ∧
      (∀ s every, lines s every (s.statements every).1) ∧ ∀ s l, line s l (s.lineStatement l).1 from
    ⟨all.1, all.2.1, all.2.2⟩
  have opened {s t : Reading} {l : LogicalLine} (here : Opens s l t)
      (ih : form t l.number (LineForm.ofText l.text) (t.statement l.number (.ofText l.text)).1) :
      line s l (s.lineStatement l).1 := by
    rw [lineStatement_opens here]
    exact opens s l t _ here ih
  have continued {s t : Reading} {l : LogicalLine} {a : Action} (here : Continues s l a t) :
      line s l (s.lineStatement l).1 := by
    rw [lineStatement_continues here]
    exact continues s l a t here
  apply statement.mutual_induct
    (fun s n f => form s n f (s.statement n f).1)
    (fun s every => lines s every (s.statements every).1)
    (fun s l => line s l (s.lineStatement l).1)
  case case1 => intro s n a; rw [statement_action]; exact leaf _ _ _ _ _ (.action a)
  case case2 => intro s n text e; rw [statement_malformed]; exact leaf _ _ _ _ _ (.malformed text e)
  case case3 =>
    intro s n text e
    rw [statement_untranslated]
    exact leaf _ _ _ _ _ (.untranslated text e)
  case case4 =>
    intro s n interval _ _ _ _ ih
    rw [statement_every]
    exact every s n interval _ rfl ih
  case case5 =>
    intro s n c f _ _ _ _ ih
    rw [statement_inlineIf]
    exact inlineIf s n c f ih
  case case6 =>
    intro s n c f g _ s' _ eq _ _ _ _ ih ih'
    rw [statement_inlineIfElse]
    refine inlineIfElse s n c f g ih ?_
    have same : s.afterThen f = { s' with body := none } := by simp [afterThen, eq]
    rw [same]
    exact ih'
  case case7 =>
    intro s n text f _ _ _ _ ih
    rw [statement_danglingElse]
    exact danglingElse s n text f ih
  case case8 => intro s none_left; rw [statements_end none none_left]; exact ended s none none_left
  case case9 =>
    intro s none_left opened
    rw [statements_end (some opened) none_left]
    exact ended s (some opened) none_left
  case case10 =>
    intro s every l rest eq closes
    rw [statements_closed eq closes]
    exact closed s every l rest eq closes
  case case11 =>
    intro s every l rest eq _ stays _ s' _ first _ _ _ _ ih ih'
    rw [statements_cons eq stays]
    refine cons s every l rest _ _ eq stays rfl rfl ih ?_
    rw [first]
    exact ih'
  case case12 => intro s l _ free ih; exact opened (.free free) ih
  case case13 => intro s l body inside eq ih; exact opened (.leaves inside eq) ih
  case case14 => intro s l body inside eq; exact continued (.ends inside eq)
  case case15 => intro s l body inside a eq; exact continued (.entry inside eq)
  case case16 => intro s l body inside e eq; exact continued (.unread inside eq)

end BasicSketch.Reading
