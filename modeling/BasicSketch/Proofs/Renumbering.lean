import BasicSketch.Proofs.LogicalLines
import BasicSketch.Proofs.Reading

set_option autoImplicit false

/-! Line numbers in the reading of a source. -/

namespace BasicSketch

namespace LogicalLine

/-- What is left to be continued behind physical lines, the first of them with number `number`. -/
def pendingAfter (number : Nat) (pending : Pending) : List String → Pending
  | [] => pending
  | physical :: rest =>
    match continued? (extended number pending physical).2 with
    | some head =>
      pendingAfter (number + 1) (some ((extended number pending physical).1, head)) rest
    | none => pendingAfter (number + 1) none rest

theorem join_append {number : Nat} {pending : Pending} {front : List String}
    (finished : pendingAfter number pending front = none) (back : List String) :
    join number pending (front ++ back) =
      join number pending front ++ join (number + front.length) none back := by
  induction front generalizing number pending with
  | nil =>
    obtain rfl : pending = none := finished
    rfl
  | cons physical rest ih =>
    have onward : number + (physical :: rest).length = number + 1 + rest.length := by
      rw [List.length_cons, Nat.add_assoc, Nat.add_comm 1]
    rw [List.cons_append, join_cons, join_cons, onward]
    rw [pendingAfter] at finished
    split
    · rename_i head goesOn
      rw [goesOn] at finished
      exact ih finished
    · rename_i ends
      rw [ends] at finished
      rw [ih finished, List.append_assoc]

def renumber (f : Nat → Nat) (l : LogicalLine) : LogicalLine := { l with number := f l.number }

theorem renumber_finish (f : Nat → Nat) (number : Nat) (text : String) :
    (finish number text).map (renumber f) = finish (f number) text := by
  unfold finish
  dsimp only
  split <;> rfl

theorem join_renumber {f : Nat → Nat} {k number : Nat} (later : ∀ n, number ≤ n → f n = n + k)
    (pending : Pending) (ls : List String) :
    join (number + k) (pending.map fun p => (f p.1, p.2)) ls =
      (join number pending ls).map (renumber f) := by
  induction ls generalizing number pending with
  | nil =>
    cases pending with
    | none => rfl
    | some p =>
      rw [Option.map_some, join_nil_some, join_nil_some, renumber_finish]
  | cons physical rest ih =>
    have text : (extended (number + k) (pending.map fun p => (f p.1, p.2)) physical).2 =
        (extended number pending physical).2 := by cases pending <;> rfl
    have first : (extended (number + k) (pending.map fun p => (f p.1, p.2)) physical).1 =
        f (extended number pending physical).1 := by
      cases pending with
      | none => exact (later number (Nat.le_refl _)).symm
      | some p => rfl
    have next : number + k + 1 = number + 1 + k := by omega
    have behind : ∀ n, number + 1 ≤ n → f n = n + k := fun n above => later n (by omega)
    rw [join_cons, join_cons, text, first, next]
    split
    · rename_i head _
      exact ih behind (some ((extended number pending physical).1, head))
    · rw [List.map_append, renumber_finish]
      exact congrArg _ (ih behind none)

theorem join_shift (k number : Nat) (pending : Pending) (ls : List String) :
    join (number + k) (pending.map fun p => (p.1 + k, p.2)) ls =
      (join number pending ls).map (renumber (· + k)) :=
  join_renumber (fun _ _ => rfl) pending ls

end LogicalLine

namespace Statement

mutual

def renumber (f : Nat → Nat) : Statement → Statement
  | .plain line action => .plain (f line) action
  | .inlineIf line condition thenBranch => .inlineIf (f line) condition (renumber f thenBranch)
  | .inlineIfElse line condition thenBranch elseBranch =>
    .inlineIfElse (f line) condition (renumber f thenBranch) (renumber f elseBranch)
  | .every line interval body => .every (f line) interval (renumberAll f body)

def renumberAll (f : Nat → Nat) : List Statement → List Statement
  | [] => []
  | first :: rest => renumber f first :: renumberAll f rest

end

theorem renumberAll_eq (f : Nat → Nat) (sts : List Statement) :
    renumberAll f sts = sts.map (renumber f) := by
  induction sts with
  | nil => rfl
  | cons st rest ih => rw [renumberAll, ih, List.map_cons]

@[simp] theorem line_renumber (f : Nat → Nat) (st : Statement) :
    (st.renumber f).line = f st.line := by
  cases st <;> rfl

end Statement

namespace Reading

variable {f : Nat → Nat}

structure Renumbered (f : Nat → Nat) (s t : Reading) : Prop where
  lines : t.lines = s.lines.map (LogicalLine.renumber f)
  body : t.body = s.body

/-- What is read of the second is what is read of the first, with other numbers on it. -/
def Copies (f : Nat → Nat) (s t : Reading) (r r' : Statement × Reading) : Prop :=
  r'.1 = r.1.renumber f ∧ Renumbered f r.2 r'.2 ∧ (t.line = f s.line → r'.2.line = f r.2.line)

theorem Renumbered.after {s t : Reading} (renumbered : Renumbered f s t) (a : Action) :
    Renumbered f (s.after a) (t.after a) := by
  cases a <;> exact ⟨renumbered.lines, by first | rfl | exact renumbered.body⟩

theorem line_after (s : Reading) (a : Action) : (s.after a).line = s.line := by
  cases a <;> rfl

@[simp] theorem lines_atEnd (s : Reading) (every : Option Nat) :
    (s.atEnd every).lines = s.lines := by
  cases every <;> rfl

@[simp] theorem line_atEnd (s : Reading) (every : Option Nat) : (s.atEnd every).line = s.line := by
  cases every <;> rfl

@[simp] theorem body_atEnd (s : Reading) (every : Option Nat) : (s.atEnd every).body = s.body := by
  cases every <;> rfl

theorem Copies.afterThen {s t : Reading} {form : LineForm} (line : t.line = f s.line)
    (copies : Copies f s t (s.statement s.line form).1 (t.statement (f s.line) form).1) :
    Renumbered f (s.afterThen form) (t.afterThen form) ∧
      (t.afterThen form).line = f (s.afterThen form).line := by
  obtain ⟨-, onward, last⟩ := copies
  rw [Reading.afterThen, Reading.afterThen, line]
  exact ⟨⟨onward.lines, rfl⟩, last line⟩

theorem Renumbered.opens {s t s' : Reading} {l : LogicalLine} (renumbered : Renumbered f s t)
    (opens : Opens s l s') :
    ∃ t', Opens t (l.renumber f) t' ∧ Renumbered f s' t' := by
  cases opens with
  | free free => exact ⟨_, .free (renumbered.body.trans free), renumbered.lines, renumbered.body⟩
  | leaves inside leaves =>
    exact ⟨_, .leaves (renumbered.body.trans inside) leaves, renumbered.lines, rfl⟩

theorem Renumbered.continues {s t s' : Reading} {l : LogicalLine} {a : Action}
    (renumbered : Renumbered f s t) (continues : Continues s l a s') :
    ∃ t', Continues t (l.renumber f) a t' ∧ Renumbered f s' t' := by
  cases continues with
  | ends inside ends => exact ⟨_, .ends (renumbered.body.trans inside) ends, renumbered.lines, rfl⟩
  | entry inside entry =>
    exact ⟨_, .entry (renumbered.body.trans inside) entry, renumbered.lines, renumbered.body⟩
  | unread inside unread =>
    exact ⟨_, .unread (renumbered.body.trans inside) unread, renumbered.lines, renumbered.body⟩

theorem copies_run : Always
    (fun s n form r => ∀ t, t.line = f s.line → Renumbered f s t →
      Copies f s t r (t.statement (f n) form).1)
    (fun s l r => ∀ t, Renumbered f s t →
      Copies f { s with line := l.number } { t with line := f l.number } r
        (t.lineStatement (l.renumber f)).1)
    (fun s every r => ∀ t other, other.isSome = every.isSome → Renumbered f s t →
      (t.statements other).1.1 = r.1.map (Statement.renumber f) ∧
        Renumbered f r.2 (t.statements other).1.2 ∧
        (t.line = f s.line → (t.statements other).1.2.line = f r.2.line)) := by
  apply run_induction
  case leaf =>
    intro s n form a s' leaf t line renumbered
    cases leaf with
    | action =>
      rw [statement_action]
      exact ⟨rfl, renumbered.after a, fun _ => by rw [line_after, line_after, line]⟩
    | malformed =>
      rw [statement_malformed]
      exact ⟨rfl, ⟨renumbered.lines, renumbered.body⟩, fun same => same⟩
    | untranslated =>
      rw [statement_untranslated]
      exact ⟨rfl, ⟨renumbered.lines, renumbered.body⟩, fun same => same⟩
  case every =>
    intro s n interval r _ ih t line renumbered
    obtain ⟨body, onward, last⟩ := ih t (some t.line) rfl renumbered
    rw [statement_every]
    refine ⟨?_, onward, last⟩
    rw [Statement.renumber, Statement.renumberAll_eq, body]
  case inlineIf =>
    intro s n c g ih t line renumbered
    obtain ⟨branch, onward, last⟩ := ih t line renumbered
    rw [statement_inlineIf, line]
    refine ⟨?_, ⟨onward.lines, rfl⟩, last⟩
    rw [Statement.renumber, branch]
  case inlineIfElse =>
    intro s n c g h ih ih' t line renumbered
    have copies := ih t line renumbered
    -- the second branch is read from where the first one has come to
    obtain ⟨middle, between⟩ := copies.afterThen line
    obtain ⟨branch', onward', last'⟩ := ih' (t.afterThen g) between middle
    rw [statement_inlineIfElse, between, line]
    refine ⟨?_, ⟨onward'.lines, rfl⟩, fun _ => last' between⟩
    rw [Statement.renumber, copies.1, branch']
  case danglingElse =>
    intro s n text g ih t line renumbered
    obtain ⟨middle, between⟩ := (ih t line renumbered).afterThen line
    rw [statement_danglingElse]
    exact ⟨rfl, ⟨middle.lines, middle.body⟩, fun _ => between⟩
  case opens =>
    intro s l s' r opens ih t renumbered
    obtain ⟨t', opens', onward⟩ := renumbered.opens opens
    obtain ⟨-, line, -⟩ := opens.kept
    obtain ⟨-, line', -⟩ := opens'.kept
    obtain ⟨same, after, last⟩ := ih t' (by rw [line', line]; rfl) onward
    rw [lineStatement_opens opens']
    exact ⟨same, after, fun _ => last (by rw [line', line]; rfl)⟩
  case continues =>
    intro s l a s' continues t renumbered
    obtain ⟨t', continues', onward⟩ := renumbered.continues continues
    rw [lineStatement_continues continues']
    exact ⟨rfl, onward, fun _ => continues'.kept.2.trans (congrArg f continues.kept.2.symm)⟩
  case ended =>
    intro s every none_left t other same renumbered
    have none_left' : t.lines = [] := by rw [renumbered.lines, none_left, List.map_nil]
    rw [statements_end other none_left']
    refine ⟨rfl, ⟨?_, ?_⟩, fun line => ?_⟩
    · rw [lines_atEnd, lines_atEnd, renumbered.lines]
    · rw [body_atEnd, body_atEnd, renumbered.body]
    · rw [line_atEnd, line_atEnd, line]
  case closed =>
    intro s every l rest lines closes t other same renumbered
    have lines' : t.lines = l.renumber f :: rest.map (LogicalLine.renumber f) := by
      rw [renumbered.lines, lines, List.map_cons]
    rw [statements_closed lines' (by rw [same]; exact closes)]
    exact ⟨rfl, ⟨rfl, renumbered.body⟩, fun line => line⟩
  case cons =>
    intro s every l rest first r lines stays read later ih ih' t other same renumbered
    have lines' : t.lines = l.renumber f :: rest.map (LogicalLine.renumber f) := by
      rw [renumbered.lines, lines, List.map_cons]
    obtain ⟨statement, onward, last⟩ :=
      ih { t with lines := rest.map (LogicalLine.renumber f) } ⟨rfl, renumbered.body⟩
    obtain ⟨more, onward', last'⟩ := ih' _ other same onward
    rw [statements_cons lines' (by rw [same]; exact stays)]
    refine ⟨?_, onward', fun _ => last' (last rfl)⟩
    rw [statement, more, List.map_cons]

end Reading

namespace Program

theorem statements_renumber {f : Nat → Nat} {source source' : String}
    (lines : LogicalLine.ofSource source' = (LogicalLine.ofSource source).map (.renumber f)) :
    (ofSource source').statements = (ofSource source).statements.map (Statement.renumber f) :=
  (Reading.copies_run.lines (Reading.ofLines (LogicalLine.ofSource source)) none
    (Reading.ofLines (LogicalLine.ofSource source')) none rfl ⟨lines, rfl⟩).1

end Program

end BasicSketch
