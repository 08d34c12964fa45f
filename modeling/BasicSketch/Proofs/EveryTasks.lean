import BasicSketch.Proofs.BodyNames
import Mathlib.Data.List.Nodup

set_option autoImplicit false

/-! Each `Every` has a time stamp, a task and a poll of its own. -/

namespace BasicSketch

open SketchLine Sketch

namespace Statement

def isEvery : Statement → Bool
  | .every .. => true
  | _ => false

def isBoundary : Statement → Bool
  | .plain _ (.procedureStart _) | .plain _ (.procedureEnd _) => true
  | _ => false

def branches : Statement → List Statement
  | .inlineIf _ _ thenBranch => [thenBranch]
  | .inlineIfElse _ _ thenBranch elseBranch => [thenBranch, elseBranch]
  | .plain .. | .every .. => []

/-- No `Every` is a branch of the statement, and no procedure begins or ends in the body of one. -/
def Apart (st : Statement) : Prop :=
  (∀ branch ∈ st.branches, branch.isEvery = false) ∧
    ∀ n interval body, st = .every n interval body → ∀ part ∈ allParts body, part.isBoundary = false

theorem no_every_of_apart : (st : Statement) → st.isEvery = false →
    (∀ part ∈ st.parts, part.Apart) → ∀ part ∈ st.parts, part.isEvery = false
  | .plain .., other, _ => by simpa [parts] using other
  | .inlineIf n c thenBranch, other, apart => by
    obtain ⟨here, inside⟩ := List.forall_mem_cons.1 apart
    refine List.forall_mem_cons.2 ⟨other, no_every_of_apart thenBranch ?_ inside⟩
    exact here.1 thenBranch List.mem_cons_self
  | .inlineIfElse n c thenBranch elseBranch, other, apart => by
    obtain ⟨here, inside⟩ := List.forall_mem_cons.1 apart
    obtain ⟨first, second⟩ := List.forall_mem_append.1 inside
    refine List.forall_mem_cons.2 ⟨other, List.forall_mem_append.2
      ⟨no_every_of_apart thenBranch ?_ first, no_every_of_apart elseBranch ?_ second⟩⟩
    · exact here.1 thenBranch List.mem_cons_self
    · exact here.1 elseBranch (List.mem_cons_of_mem _ List.mem_cons_self)

mutual

theorem home_moves : (st : Statement) → (∀ part ∈ st.parts, part.isBoundary = false) →
    (p : Position) → (st.moves p).home = p.home
  | .plain _ a, inside, p => by
    have here := inside _ List.mem_cons_self
    cases a <;> first | rfl | cases here
  | .inlineIf _ _ thenBranch, inside, p =>
    home_moves thenBranch (List.forall_mem_cons.1 inside).2 p
  | .inlineIfElse _ _ thenBranch elseBranch, inside, p => by
    obtain ⟨first, second⟩ := List.forall_mem_append.1 (List.forall_mem_cons.1 inside).2
    exact (home_moves elseBranch second _).trans (home_moves thenBranch first p)
  | .every .., _, _ => rfl

theorem home_movesAll : (sts : List Statement) → (∀ part ∈ allParts sts, part.isBoundary = false) →
    (p : Position) → (movesAll p sts).home = p.home
  | [], _, _ => rfl
  | first :: rest, inside, p => by
    obtain ⟨here, later⟩ := List.forall_mem_append.1 inside
    exact (home_movesAll rest later _).trans (home_moves first here p)

end

end Statement

def taskSignature (n : Nat) : String := s!"void _every_task_{n}();"

def SketchLine.ofEvery (l : SketchLine) : Bool := l.origin.author.any Statement.isEvery

namespace Moment

def isEvery (m : Moment) : Bool := m.statement?.any Statement.isEvery

def number (m : Moment) : Nat := m.sketch.everyCount + 1

def announcement (m : Moment) : List SketchLine :=
  match m.deed with
  | .statement st => st.headerLines true s!"unsigned long _every_last_{m.number} = 0;"
  | _ => []

def polling (m : Moment) : List SketchLine :=
  match m.deed with
  | .statement (.every line interval body) =>
    let origin : Origin := ⟨some (.every line interval body), false⟩
    [.marker origin 1 line,
      .code origin 1 s!"if (millis() - _every_last_{m.number} >= {m.sketch.value interval}) \x7b",
      .code origin 2 s!"_every_last_{m.number} = millis();",
      .code origin 2 s!"_every_task_{m.number}();",
      .code origin 1 "\x7d"]
  | _ => []

/-- The procedure is the task of the `Every`: all that its body writes, below the header and with an
end. -/
def Defines (m : Moment) (q : Procedure) : Prop :=
  match m.deed with
  | .statement (.every line interval body) =>
    let st : Statement := .every line interval body
    ∃ written, (m.sketch.task.statements body).open? = some written ∧
      written.title =
        (taskSignature m.number, st.headerLines true s!"void _every_task_{m.number}() \x7b") ∧
      q = { written with body := written.body ++ st.headerLines true "\x7d" }
  | _ => False

theorem Defines.signature {m : Moment} {q : Procedure} (defines : m.Defines q) :
    q.signature = taskSignature m.number := by
  unfold Defines at defines
  split at defines
  · obtain ⟨written, -, title, rfl⟩ := defines
    exact congrArg Prod.fst title
  · exact defines.elim

end Moment

def everys (ms : List Moment) : List Moment := ms.filter Moment.isEvery

theorem everys_append (ms more : List Moment) : everys (ms ++ more) = everys ms ++ everys more :=
  List.filter_append ..

/-- The lines are the pieces of the moments, each in one stretch, and lines of other statements. -/
inductive Pieces (piece : Moment → List SketchLine) : List Moment → List SketchLine → Prop
  | nil : Pieces piece [] []
  | other {ms : List Moment} {ls : List SketchLine} (l : SketchLine) (own : l.ofEvery = false)
    (rest : Pieces piece ms ls) : Pieces piece ms (l :: ls)
  | piece {ms : List Moment} {ls : List SketchLine} (m : Moment) (rest : Pieces piece ms ls) :
    Pieces piece (m :: ms) (piece m ++ ls)

namespace Pieces

variable {piece : Moment → List SketchLine} {ms more : List Moment} {ls ls' : List SketchLine}

theorem append (first : Pieces piece ms ls) (second : Pieces piece more ls') :
    Pieces piece (ms ++ more) (ls ++ ls') := by
  induction first with
  | nil => exact second
  | other l own _ ih => exact .other l own ih
  | piece m _ ih =>
    rw [List.append_assoc]
    exact .piece m ih

theorem others (own : ∀ l ∈ ls, l.ofEvery = false) : Pieces piece [] ls := by
  induction ls with
  | nil => exact .nil
  | cons l rest ih =>
    obtain ⟨here, later⟩ := List.forall_mem_cons.1 own
    exact .other l here (ih later)

theorem single (piece : Moment → List SketchLine) (m : Moment) : Pieces piece [m] (piece m) := by
  have only : Pieces piece [m] (piece m ++ []) := .piece m .nil
  rwa [List.append_nil] at only

end Pieces

namespace Sketch

section

variable (s : Sketch)

@[simp] theorem everyCount_push (inPlace : Bool) (scope : Scope) (depth : Nat) (text : String) :
    (s.push inPlace scope depth text).everyCount = s.everyCount := by
  obtain ⟨_, _, _, _, _, _, eq, -⟩ := push_frame s inPlace scope depth text
  rw [eq]

@[simp] theorem everyCount_endProcedure : s.endProcedure.everyCount = s.everyCount := by
  have dropped (closer : String) : (s.dropBlocks closer).everyCount = s.everyCount := by
    obtain ⟨_, _, eq⟩ := dropBlocks_frame s closer
    rw [eq]
  have finished (t : Sketch) : t.finishProcedure.everyCount = t.everyCount := by
    cases opened : t.open? with
    | none => rw [finishProcedure, opened]
    | some q =>
      obtain ⟨_, _, eq⟩ := finishProcedure_frame opened
      rw [eq]
  unfold endProcedure
  split <;> simp [report, finished, dropped]

@[simp] theorem everyCount_leave (reason : String) :
    (s.leave reason).everyCount = s.everyCount := by
  unfold leave
  split
  · rfl
  · exact everyCount_endProcedure _

@[simp] theorem everyCount_enterProcedure (signature header : String) :
    (s.enterProcedure signature header).everyCount = s.everyCount := by
  simp [enterProcedure_eq, head, begin]

theorem everyCount_procedureStart (h : ProcedureHeader) :
    (s.procedureStart h).everyCount = s.everyCount := by
  have opened : (s.openProcedure h).everyCount = s.everyCount := by
    unfold openProcedure
    dsimp only
    generalize Cpp.called _ _ ++ ";" = signature
    generalize Cpp.called _ _ ++ " \x7b" = header
    obtain ⟨symbols, eq, -⟩ := parameterTexts_frame s h.parameters
    rw [eq]
    have entered := everyCount_enterProcedure { s with symbols } signature header
    generalize ({ s with symbols } : Sketch).enterProcedure signature header = u at entered ⊢
    obtain ⟨_, _, first⟩ := declare_frame u h.name
    obtain ⟨_, _, all⟩ := foldl_declare_frame Parameter.name h.parameters (u.declare h.name)
    rw [all, first]
    exact entered
  unfold procedureStart
  split
  · exact everyCount_leave ..
  split
  · exact everyCount_leave ..
  · exact opened

end

/-- No `Every` is counted, and whatever is written is written for one statement. -/
structure Leaves (s s' : Sketch) : Prop where
  everyCount : s'.everyCount = s.everyCount
  author : s'.author = s.author
  lines : ∀ b, b ≠ .procedure →
    ∃ new, s'.buffer b = s.buffer b ++ new ∧ ∀ l ∈ new, l.origin.author = s.author

namespace Leaves

variable {s s' s'' : Sketch} {p : Position}

theorem trans (first : Leaves s s') (second : Leaves s' s'') : Leaves s s'' where
  everyCount := second.everyCount.trans first.everyCount
  author := second.author.trans first.author
  lines b plain := by
    obtain ⟨new, eq, own⟩ := first.lines b plain
    obtain ⟨new', eq', own'⟩ := second.lines b plain
    rw [first.author] at own'
    exact ⟨new ++ new', by rw [eq', eq, List.append_assoc], List.forall_mem_append.2 ⟨own, own'⟩⟩

theorem of_eq (everyCount : s'.everyCount = s.everyCount) (author : s'.author = s.author)
    (lines : ∀ b, b ≠ .procedure → s'.buffer b = s.buffer b) : Leaves s s' :=
  ⟨everyCount, author, fun b plain => ⟨[], by simp [lines b plain], by simp⟩⟩

theorem push (s : Sketch) (inPlace : Bool) (scope : Scope) (depth : Nat) (text : String) :
    Leaves s (s.push inPlace scope depth text) where
  everyCount := by simp
  author := by simp
  lines b _ := by
    cases capturing : s.capture with
    | some texts =>
      refine ⟨[], ?_, by simp⟩
      rw [buffer_push_captured _ _ _ _ _ (by simp [capturing]), List.append_nil]
    | none =>
      refine ⟨_, buffer_push _ _ _ _ _ capturing b, ?_⟩
      split
      · exact fun l mem => (origin_pushed l mem).1
      · simp

theorem of_does {a : Action} {keeps : Bool} (does : Does a keeps s s') : Leaves s s' := by
  induction does with
  | line | elsewhere => exact push ..
  | note s | turn s => exact of_eq rfl rfl fun b plain => buffer_plain rfl rfl rfl b plain
  | hoist s opened => exact of_eq rfl rfl fun b _ => (Noted.hoist s opened).buffer b
  | trans _ _ first second => exact first.trans second

theorem perform (fits : Fits p s) {n : Nat} {a : Action}
    (signed : s.capture.isSome = true ∨ s.author = some (.plain n a)) : Leaves s (s.perform a) := by
  have author := (Routes.perform fits signed).author
  have opened := fits.opened.1
  cases a with
  | procedureStart h =>
    exact of_eq (everyCount_procedureStart s h) author fun b plain =>
      buffer_procedureStart plain opened h
  | procedureEnd kind =>
    exact of_eq (everyCount_endProcedure s) author fun b plain => buffer_endProcedure plain opened
  | _ => exact of_does (.perform s _ (by simp) (by simp))

theorem captured {st : Statement}
    (leaves : Leaves { s with capture := some [] } (place { s with capture := some [] } st)) :
    Leaves s (s.captured fun s => s.place st).2 where
  everyCount := leaves.everyCount
  author := leaves.author
  lines b plain := by
    obtain ⟨new, eq, own⟩ := leaves.lines b plain
    refine ⟨new, ?_, own⟩
    cases b <;> exact eq

end Leaves

theorem place_leaves : (st : Statement) → (p : Position) → (s : Sketch) → Fits p s →
    s.capture.isSome = true ∨ s.author = some st → (∀ part ∈ st.parts, part.isEvery = false) →
    Leaves s (s.place st)
  | .plain _ _, p, s, fits, signed, _ => Leaves.perform fits signed
  | .inlineIf _ _ thenBranch, p, s, fits, _, others => by
    have branch := place_leaves thenBranch p { s with capture := some [] }
      ⟨fits.scope, fits.opened, fits.number⟩ (Or.inl rfl) (List.forall_mem_cons.1 others).2
    exact branch.captured.trans (.push ..)
  | .inlineIfElse _ _ thenBranch elseBranch, p, s, fits, _, others => by
    obtain ⟨first, second⟩ := List.forall_mem_append.1 (List.forall_mem_cons.1 others).2
    have fits' : Fits p { s with capture := some [] } := ⟨fits.scope, fits.opened, fits.number⟩
    have branch := place_leaves thenBranch p { s with capture := some [] } fits' (Or.inl rfl) first
    have routes := place_finishes thenBranch p { s with capture := some [] } fits' (Or.inl rfl)
    -- the first branch may have moved to another procedure
    have other := place_leaves elseBranch (thenBranch.moves p)
      { (s.captured fun s => s.place thenBranch).2 with capture := some [] }
      ⟨routes.fits.scope, routes.fits.opened, routes.fits.number⟩ (Or.inl rfl) second
    exact (branch.captured.trans other.captured).trans (.push ..)
  | .every .., _, _, _, _, others => by simp [Statement.parts, Statement.isEvery] at others

/-! What an `Every` writes itself. -/

section

variable {s t : Sketch} {st : Statement} {b : Scope}

theorem buffer_announce (awaits : s.Awaits st) (writing : s.capture = none) :
    s.announce.buffer b =
      s.buffer b ++ if b = .global then
        st.headerLines true s!"unsigned long _every_last_{s.everyCount + 1} = 0;" else [] := by
  obtain ⟨author, line, marked⟩ := awaits writing
  have lines (text : String) : Sketch.pushed { s with everyCount := s.everyCount + 1 } false
      .global 0 text = st.headerLines true text := by
    simp [Sketch.pushed, Statement.headerLines, author, line, marked]
  rw [← lines]
  exact buffer_push { s with everyCount := s.everyCount + 1 } false .global 0 _ writing b

theorem buffer_poll (writing : t.capture = none) (unmarked : t.marked.contains .loop = false)
    (id : Nat) (interval : String) :
    (t.poll id interval).buffer b =
      t.buffer b ++ if b = .loop then
        [.marker ⟨t.author, false⟩ 1 t.line,
          .code ⟨t.author, false⟩ 1 s!"if (millis() - _every_last_{id} >= {interval}) \x7b",
          .code ⟨t.author, false⟩ 2 s!"_every_last_{id} = millis();",
          .code ⟨t.author, false⟩ 2 s!"_every_task_{id}();",
          .code ⟨t.author, false⟩ 1 "\x7d"] else [] := by
  have still {u : Sketch} (writing : u.capture = none) (extra : Nat) (text : String) :
      (u.emitLoop extra text).capture = none :=
    (Carries.push u false .loop (1 + extra) text).writing writing
  have marks {u : Sketch} (writing : u.capture = none) (extra : Nat) (text : String) :
      (u.emitLoop extra text).marked.contains .loop = true := by
    rw [emitLoop, push_marked _ _ _ _ _ writing]
    split
    · assumption
    · simp
  -- behind the first line each line is written without a marker
  have next {u : Sketch} (writing : u.capture = none) (marked : u.marked.contains .loop = true)
      (extra : Nat) (text : String) : (u.emitLoop extra text).buffer b =
        u.buffer b ++ if b = .loop then [.code ⟨u.author, false⟩ (1 + extra) text] else [] := by
    rw [emitLoop, buffer_push _ _ _ _ _ writing,
      show u.pushed false .loop (1 + extra) text = _ from if_pos marked]
    rfl
  have first : (t.emitLoop 0 s!"if (millis() - _every_last_{id} >= {interval}) \x7b").buffer b =
      t.buffer b ++ if b = .loop then
        [.marker ⟨t.author, false⟩ 1 t.line,
          .code ⟨t.author, false⟩ 1 s!"if (millis() - _every_last_{id} >= {interval}) \x7b"]
        else [] := by
    rw [emitLoop, buffer_push _ _ _ _ _ writing,
      show t.pushed false .loop (1 + 0) _ = _ from if_neg (by rw [unmarked]; simp)]
    rfl
  have second := still writing 0 s!"if (millis() - _every_last_{id} >= {interval}) \x7b"
  have third := still second 1 s!"_every_last_{id} = millis();"
  have fourth := still third 1 s!"_every_task_{id}();"
  rw [poll, next fourth (marks third ..), next third (marks second ..), next second
    (marks writing ..), first]
  cases b <;> simp [emitLoop]

theorem signature_enterProcedure (s : Sketch) (signature header : String) :
    (s.enterProcedure signature header).open?.map Procedure.signature = some signature := by
  have heading := push_heading ((s.leave "next procedure").begin signature) false .procedure 0
    header
  have same := congrArg (Option.map Prod.fst) heading
  rw [Option.map_map, Option.map_map] at same
  rw [enterProcedure_eq, head, Option.map_map]
  exact same

theorem carried_task (s : Sketch) :
    s.task.author = s.author ∧ s.task.capture.isSome = s.capture.isSome := by
  obtain ⟨-, -, author, capture, -⟩ := task_frame s
  have announced := Carries.push { s with everyCount := s.everyCount + 1 } false .global 0
    s!"unsigned long _every_last_{s.everyCount + 1} = 0;"
  exact ⟨author.trans announced.author, capture.trans announced.capture⟩

theorem title_task (awaits : s.Awaits st) (writing : s.capture = none) :
    s.task.open?.map Procedure.title = some (taskSignature (s.everyCount + 1),
      st.headerLines true s!"void _every_task_{s.everyCount + 1}() \x7b") := by
  have header := header_task awaits
  have signature : s.task.open?.map Procedure.signature = some (taskSignature (s.everyCount + 1)) :=
    signature_enterProcedure ..
  obtain ⟨q, opened⟩ := Option.isSome_iff_exists.1 (task_frame s).2.1
  simp only [opened, writing, Option.map_some, Option.some.injEq, Option.isSome_none,
    Bool.false_eq_true, if_false] at header signature ⊢
  rw [Procedure.title, header, signature]

theorem ended_open {p : Position} {q : Procedure} (inside : t.scope = .procedure)
    (writing : t.capture = none) (opened : t.open? = some q) :
    t.ended p = [(p.home.number,
      { q with body := q.body ++ t.pushed false .procedure 0 "\x7d" })] := by
  rw [ended, if_pos inside, push_open _ _ _ _ _ writing]
  simp [append, opened]

end

/-- From `s` to `s'` each `Every` of these moments is counted, announced, defined and polled. -/
structure Wires (s : Sketch) (ms : List Moment) (done : List (Nat × Procedure)) (s' : Sketch) :
    Prop where
  count : s'.everyCount = s.everyCount + (everys ms).length
  numbers : (everys ms).map Moment.number = List.range' (s.everyCount + 1) (everys ms).length
  globals : ∃ new, s'.buffer .global = s.buffer .global ++ new ∧
    Pieces Moment.announcement (everys ms) new
  loop : ∃ new order, s'.buffer .loop = s.buffer .loop ++ new ∧ order.Perm (everys ms) ∧
    Pieces Moment.polling order new
  tasks : ∀ m ∈ everys ms, ∃ d ∈ done, m.Defines d.2

namespace Wires

variable {s s' s'' : Sketch} {ms more : List Moment} {done rest : List (Nat × Procedure)}

theorem trans (first : Wires s ms done s') (second : Wires s' more rest s'') :
    Wires s (ms ++ more) (done ++ rest) s'' where
  count := by
    rw [second.count, first.count, everys_append, List.length_append, Nat.add_assoc]
  numbers := by
    rw [everys_append, List.map_append, List.length_append, first.numbers, second.numbers,
      first.count, Nat.add_right_comm, List.range'_append_1]
  globals := by
    obtain ⟨new, eq, pieces⟩ := first.globals
    obtain ⟨new', eq', pieces'⟩ := second.globals
    refine ⟨new ++ new', by rw [eq', eq, List.append_assoc], ?_⟩
    rw [everys_append]
    exact pieces.append pieces'
  loop := by
    obtain ⟨new, order, eq, all, pieces⟩ := first.loop
    obtain ⟨new', order', eq', all', pieces'⟩ := second.loop
    refine ⟨new ++ new', order ++ order', by rw [eq', eq, List.append_assoc], ?_,
      pieces.append pieces'⟩
    rw [everys_append]
    exact all.append all'
  tasks := by
    rw [everys_append]
    refine List.forall_mem_append.2 ⟨fun m mem => ?_, fun m mem => ?_⟩
    · obtain ⟨d, among, defines⟩ := first.tasks m mem
      exact ⟨d, List.mem_append_left _ among, defines⟩
    · obtain ⟨d, among, defines⟩ := second.tasks m mem
      exact ⟨d, List.mem_append_right _ among, defines⟩

theorem of_leaves (leaves : Leaves s s') (other : s.author.any Statement.isEvery = false)
    (absent : everys ms = []) : Wires s ms done s' := by
  have pieces (piece : Moment → List SketchLine) (b : Scope) (plain : b ≠ .procedure) :
      ∃ new, s'.buffer b = s.buffer b ++ new ∧ Pieces piece [] new := by
    obtain ⟨new, eq, own⟩ := leaves.lines b plain
    exact ⟨new, eq, .others fun l mem => by rw [SketchLine.ofEvery, own l mem, other]⟩
  obtain ⟨new, eq, polled⟩ := pieces Moment.polling .loop (by simp)
  constructor <;> rw [absent]
  · exact leaves.everyCount
  · rfl
  · exact pieces Moment.announcement .global (by simp)
  · exact ⟨new, [], eq, .nil, polled⟩
  · exact List.forall_mem_nil _

variable {p : Position} {n : Nat} {interval : Expr} {body : List Statement}

/-- No procedure begins or ends in the body of the `Every`, so its task is open to the end. -/
theorem behind_body (p : Position) (awaits : s.Awaits (.every n interval body))
    (writing : s.capture = none)
    (whole : ∀ part ∈ Statement.allParts body, part.isBoundary = false) :
    let t := (s.task.statements body).start s.line
    t.scope = .procedure ∧ t.capture = none ∧ t.author = some (.every n interval body) ∧
      t.line = n ∧ ∃ written, t.open? = some written ∧ written.title =
        (taskSignature (s.everyCount + 1), Statement.headerLines (.every n interval body) true
          s!"void _every_task_{s.everyCount + 1}() \x7b") := by
  intro t
  obtain ⟨scope, opened, -⟩ := task_frame s
  obtain ⟨author, capture⟩ := carried_task s
  obtain ⟨facing, line, -⟩ := awaits writing
  have inner := statements_finishes body (p.enter .procedure) s.task
    ⟨scope, by simp [scope, opened], Nat.le_refl _⟩
  have home := Statement.home_movesAll body whole (p.enter .procedure)
  have carries : Carries s t := ⟨inner.author.trans author, rfl, inner.capture.trans capture⟩
  refine ⟨inner.fits.scope.trans (congrArg Home.scope home), carries.writing writing,
    carries.author.trans facing, line, ?_⟩
  obtain ⟨q, isOpen⟩ := Option.isSome_iff_exists.1 opened
  have title := title_task awaits writing
  rw [isOpen, Option.map_some, Option.some.injEq] at title
  -- had the task been finished in its body, the lines would go elsewhere behind it
  rcases inner.kept (p.begun + 1) q rfl isOpen with ⟨-, written, still, same, -⟩ | ⟨_, mem, -⟩
  · exact ⟨written, still, same.trans title⟩
  · exact absurd home (inner.finished _ mem).2.1

/-- Behind its body an `Every` writes its poll, to the loop and nowhere else. -/
theorem place_every (p : Position) (awaits : s.Awaits (.every n interval body))
    (writing : s.capture = none)
    (whole : ∀ part ∈ Statement.allParts body, part.isBoundary = false) :
    let t := s.place (.every n interval body)
    t.everyCount = (s.task.statements body).everyCount ∧
      t.buffer .global = (s.task.statements body).buffer .global ∧
      t.buffer .loop = (s.task.statements body).buffer .loop ++
        Moment.polling ⟨p.home, s, .statement (.every n interval body)⟩ := by
  intro t
  obtain ⟨inside, writing', author, line, _, opened, -⟩ := behind_body p awaits writing whole
  let behind := (s.task.statements body).start s.line
  obtain ⟨carries, marked⟩ := carries_endProcedure behind
  let resumed := behind.endProcedure.resume s.announce
  have place : t = resumed.poll (s.everyCount + 1) (s.value interval) := by
    simp only [t, Sketch.place, emitEvery_eq, leave_of_global (scope_endProcedure _)]
    rfl
  -- the end of the task is marked there only, so the poll has a marker of its own
  have unmarked : resumed.marked = [.procedure] := by
    rw [show resumed.marked = _ from marked writing' rfl, if_pos inside]
  have buffers (b : Scope) (plain : b ≠ .procedure) :
      resumed.buffer b = (s.task.statements body).buffer b := by
    have ended := @buffer_endProcedure behind b plain fun _ => by simp [behind, opened]
    exact (@buffer_plain behind.endProcedure resumed rfl rfl rfl b plain).trans
      (ended.trans (@buffer_plain (s.task.statements body) behind rfl rfl rfl b plain))
  have polled (b : Scope) := @buffer_poll resumed b (carries.writing writing')
    (by rw [unmarked]; decide) (s.everyCount + 1) (s.value interval)
  have author' : resumed.author = some (.every n interval body) := carries.author.trans author
  have line' : resumed.line = n := carries.line.trans line
  rw [place]
  refine ⟨?_, ?_, ?_⟩
  · simp only [poll, emitLoop, everyCount_push]
    exact everyCount_endProcedure behind
  · rw [polled, buffers .global (by simp)]
    exact List.append_nil _
  · rw [polled, buffers .loop (by simp), author', line']
    rfl

theorem defines (p : Position) (awaits : s.Awaits (.every n interval body))
    (writing : s.capture = none)
    (whole : ∀ part ∈ Statement.allParts body, part.isBoundary = false) :
    ∃ d ∈ ((s.task.statements body).start s.line).ended
        (Statement.movesAll (p.enter .procedure) body),
      Moment.Defines ⟨p.home, s, .statement (.every n interval body)⟩ d.2 := by
  obtain ⟨inside, writing', author, line, written, opened, title⟩ :=
    behind_body p awaits writing whole
  refine ⟨_, by rw [ended_open inside writing' opened]; exact List.mem_cons_self,
    written, opened, title, ?_⟩
  have lines : Sketch.pushed ((s.task.statements body).start s.line) false .procedure 0 "\x7d" =
      Statement.headerLines (.every n interval body) true "\x7d" := by
    rw [Sketch.pushed, author, line]
    rfl
  rw [lines]

theorem every (p : Position) (awaits : s.Awaits (.every n interval body))
    (writing : s.capture = none)
    (whole : ∀ part ∈ Statement.allParts body, part.isBoundary = false)
    (inner : Wires s.task ms done (s.task.statements body)) :
    Wires s (⟨p.home, s, .statement (.every n interval body)⟩ :: ms)
      (done ++ ((s.task.statements body).start s.line).ended
        (Statement.movesAll (p.enter .procedure) body)) (s.place (.every n interval body)) := by
  have own : everys (⟨p.home, s, .statement (.every n interval body)⟩ :: ms) =
      ⟨p.home, s, .statement (.every n interval body)⟩ :: everys ms := rfl
  have counted : s.task.everyCount = s.everyCount + 1 :=
    (everyCount_enterProcedure ..).trans (everyCount_push ..)
  have lines := (task_frame s).2.2.2.2.2.1
  obtain ⟨everyCount, globals, loop⟩ := place_every p awaits writing whole
  constructor <;> rw [own]
  · rw [everyCount, inner.count, counted, List.length_cons, Nat.add_assoc, Nat.add_comm 1]
  · rw [List.map_cons, inner.numbers, counted, List.length_cons, List.range'_succ]
    rfl
  · obtain ⟨new, eq, pieces⟩ := inner.globals
    rw [globals, eq, lines .global (by simp), buffer_announce awaits writing, List.append_assoc]
    exact ⟨_, rfl, .piece _ pieces⟩
  · -- the polls of the `Every` blocks in the body come first
    obtain ⟨new, order, eq, all, pieces⟩ := inner.loop
    rw [loop, eq, lines .loop (by simp), buffer_announce awaits writing, List.append_assoc,
      List.append_assoc]
    exact ⟨_, _, rfl, (List.perm_append_singleton _ _).trans (all.cons _),
      pieces.append (.single _ _)⟩
  · obtain ⟨d, mem, here⟩ := defines p awaits writing whole
    refine List.forall_mem_cons.2 ⟨⟨d, List.mem_append_right _ mem, here⟩, fun m among => ?_⟩
    obtain ⟨d, mem, there⟩ := inner.tasks m among
    exact ⟨d, List.mem_append_left _ mem, there⟩

end Wires

theorem everys_moments {st : Statement} {s : Sketch} {p : Position}
    (others : ∀ part ∈ st.parts, part.isEvery = false) : everys (s.moments p st) = [] := by
  refine List.filter_eq_nil_iff.2 fun m mem => ?_
  cases stated : m.statement? with
  | none => simp [Moment.isEvery, stated]
  | some part =>
    have among : part ∈ st.parts := by
      rw [← statement?_moments st s p]
      exact List.mem_filterMap.2 ⟨m, mem, stated⟩
    simp [Moment.isEvery, stated, others part among]

theorem Wires.statement {s : Sketch} {st : Statement} {ms : List Moment}
    {done : List (Nat × Procedure)}
    (wires : Wires (s.facing st) ms done ((s.facing st).place st)) :
    Wires s ms done (s.statements [st]) :=
  ⟨wires.count, wires.numbers, wires.globals, wires.loop, wires.tasks⟩

theorem Wires.other {p : Position} {s : Sketch} {st : Statement} (fits : Fits p s)
    (writing : s.capture = none) (awaits : s.Awaits st) (apart : ∀ part ∈ st.parts, part.Apart)
    (other : st.isEvery = false) : Wires s (s.moments p st) (s.finishes p st) (s.place st) := by
  have others := st.no_every_of_apart other apart
  have author := (awaits writing).1
  exact .of_leaves (place_leaves st p s fits (Or.inr author) others) (by rw [author]; exact other)
    (everys_moments others)

mutual

theorem place_wires : (st : Statement) → (p : Position) → (s : Sketch) → Fits p s →
    s.capture = none → s.Awaits st → (∀ part ∈ st.parts, part.Apart) →
    Wires s (s.moments p st) (s.finishes p st) (s.place st)
  | .plain .., _, _, fits, writing, awaits, apart => .other fits writing awaits apart rfl
  | .inlineIf .., _, _, fits, writing, awaits, apart => .other fits writing awaits apart rfl
  | .inlineIfElse .., _, _, fits, writing, awaits, apart => .other fits writing awaits apart rfl
  | .every n interval body, p, s, _, writing, awaits, apart => by
    obtain ⟨here, inside⟩ := List.forall_mem_cons.1 apart
    obtain ⟨scope, opened, -⟩ := task_frame s
    have writing' := writing_of_capture (carried_task s).2 writing
    have inner := statements_wires body (p.enter .procedure) s.task
      ⟨scope, by simp [scope, opened], Nat.le_refl _⟩ writing' inside
    exact .every p awaits writing (here.2 n interval body rfl) inner

theorem statements_wires : (sts : List Statement) → (p : Position) → (s : Sketch) → Fits p s →
    s.capture = none → (∀ part ∈ Statement.allParts sts, part.Apart) →
    Wires s (s.allMoments p sts) (s.allFinishes p sts) (s.statements sts)
  | [], _, _, _, _, _ =>
    ⟨rfl, rfl, ⟨[], (List.append_nil _).symm, .nil⟩, ⟨[], [], (List.append_nil _).symm, .nil, .nil⟩,
      List.forall_mem_nil _⟩
  | first :: rest, p, s, fits, writing, apart => by
    obtain ⟨here, later⟩ := List.forall_mem_append.1 apart
    have fits' : Fits p (s.facing first) := ⟨fits.scope, fits.opened, fits.number⟩
    have wires := (place_wires first p (s.facing first) fits' writing (fun _ => ⟨rfl, rfl, rfl⟩)
      here).statement
    have routes := (place_finishes first p (s.facing first) fits' (Or.inr rfl)).statement
    have writing' := writing_of_capture routes.capture writing
    rw [statements_cons]
    exact wires.trans
      (statements_wires rest (first.moves p) (s.statements [first]) routes.fits writing' later)

end

/-! The signatures of tasks. -/

theorem taskSignature_inj {i j : Nat} (same : taskSignature i = taskSignature j) : i = j := by
  unfold taskSignature at same
  rw [String.append_left_inj, String.append_right_inj] at same
  rw [← Text.digitsValue_nat i, same, Text.digitsValue_nat]

theorem eq_of_parted {c : Char} {a b x y : String}
    (same : a ++ String.ofList [c] ++ x = b ++ String.ofList [c] ++ y) (left : c ∉ a.toList)
    (right : c ∉ x.toList) : a = b ∧ x = y := by
  have texts := congrArg String.toList same
  simp only [String.toList_append, String.toList_ofList, List.append_assoc,
    List.singleton_append] at texts
  obtain ⟨first, -, second⟩ := (List.append_cons_inj_of_notMem left right).1 texts
  exact ⟨String.toList_inj.1 first, String.toList_inj.1 second⟩

theorem name_of_taskSignature {result name : String} {parameters : List String} {n : Nat}
    (same : Cpp.called s!"{result} {name}" parameters ++ ";" = taskSignature n) :
    name = s!"_every_task_{n}" := by
  have absent {c : Char} (other : c.isDigit = false) {text : String} (apart : c ∉ text.toList) :
      c ∉ (text ++ toString n).toList := by
    rw [String.toList_append, List.mem_append, not_or]
    exact ⟨apart, fun mem => by simp [Text.isDigit_of_mem_nat n c mem] at other⟩
  -- the signature of a task has one bracket that opens and one blank, so they part it
  have opening : "void _every_task_" ++ toString n ++ String.ofList ['('] ++ ");" =
      s!"{result} {name}" ++ String.ofList ['('] ++
        (", ".intercalate parameters ++ ")" ++ ";") := by
    have signature : taskSignature n = "void _every_task_" ++ toString n ++ "();" := rfl
    rw [String.append_assoc, show String.ofList ['('] ++ ");" = "();" from rfl, ← signature, ← same]
    simp only [Cpp.called, String.append_assoc]
  have front := (eq_of_parted opening (absent rfl (by decide)) (by decide)).1
  have blank : "void" ++ String.ofList [' '] ++ ("_every_task_" ++ toString n) =
      result ++ String.ofList [' '] ++ name := by
    rw [← String.append_assoc]
    exact front
  exact (eq_of_parted blank (by decide) (absent rfl (by decide))).2.symm

theorem filter_of_unique {α β : Type} {key : α → β} {p : α → Bool} {l : List α} {a : α}
    (distinct : (l.map key).Nodup) (mem : a ∈ l) (holds : p a = true)
    (unique : ∀ b ∈ l, p b = true → key b = key a) : l.filter p = [a] := by
  have nodup := (List.Nodup.of_map key distinct).filter p
  refine List.perm_singleton.1 ((List.perm_ext_iff_of_nodup nodup (List.nodup_singleton a)).2
    fun b => ?_)
  rw [List.mem_filter, List.mem_singleton]
  constructor
  · rintro ⟨among, holds'⟩
    exact List.inj_on_of_nodup_map distinct among mem (unique b among holds')
  · rintro rfl
    exact ⟨mem, holds⟩

section

variable {options : Options} {sts : List Statement}
  (unnamed : ∀ n h, .plain n (.procedureStart h) ∈ Statement.allParts sts →
    ∀ k : Nat, h.name ≠ s!"_every_task_{k}")
  {d : Nat × Procedure} (mem : d ∈ finished options sts) {k : Nat}
  (same : d.2.signature = taskSignature k)

include unnamed mem same

/-- Only an `Every` opens a procedure with the signature of a task. -/
theorem opener_of_task :
    ∃ m, ((momentsOf options sts).filter Moment.opens)[d.1 - 1]? = some m ∧ m.isEvery = true ∧
      m.number = k := by
  have signed {t : Sketch} (title : t.open?.map Procedure.title = some d.2.title) :
      t.open?.map Procedure.signature = some (taskSignature k) := by
    have first := congrArg (Option.map Prod.fst) title
    rw [Option.map_map] at first
    exact first.trans (congrArg some same)
  obtain ⟨_, drafted⟩ := (records_ofStatements options sts).finished d mem
  obtain ⟨m, found, opens, -⟩ := drafted.known
  refine ⟨m, found, ?_⟩
  unfold Moment.Opens at opens
  split at opens
  · rename_i n h deed
    obtain ⟨inside, title⟩ := opens
    rw [procedureStart_procedure inside] at title
    obtain ⟨symbols, result, parameters, text, opened⟩ := title_openProcedure m.sketch h
    have signature := signed (opened.symm.trans title)
    rw [signature_enterProcedure, Option.some.injEq] at signature
    have part : .plain n (.procedureStart h) ∈ Statement.allParts sts := by
      rw [← statement?_allMoments sts (empty options) .start]
      have among := (List.mem_filter.1 (List.mem_of_getElem? found)).1
      exact List.mem_filterMap.2 ⟨m, among, by simp [Moment.statement?, deed]⟩
    exact absurd (name_of_taskSignature signature) (unnamed n h part k)
  · rename_i deed
    have signature := (signature_enterProcedure ..).symm.trans (signed opens)
    exact ⟨by simp [Moment.isEvery, Moment.statement?, deed, Statement.isEvery],
      taskSignature_inj (Option.some.inj signature)⟩
  · exact opens.elim

/-- The numbers tell the tasks apart, so that each is finished once. -/
theorem filter_finished
    (numbers : ((everys (momentsOf options sts)).map Moment.number).Nodup) :
    (finished options sts).filter (·.2.signature == taskSignature k) = [d] := by
  have routes := ofStatements_finished options sts
  have begun : ∀ d ∈ finished options sts, 0 < d.1 := fun d mem =>
    ((routes.finished d mem).1.resolve_left (Home.procedure_ne_outside d.1).symm).1
  have apart : ((momentsOf options sts).filter Moment.opens).Pairwise fun m m' =>
      m.isEvery = true → m'.isEvery = true → m.number ≠ m'.number :=
    (List.pairwise_filter.1 (List.pairwise_map.1 numbers)).filter _
  rw [List.pairwise_iff_getElem] at apart
  -- two tasks of one signature have openers of one number
  have unique : ∀ d' ∈ finished options sts, d'.2.signature = taskSignature k → d'.1 = d.1 := by
    intro d' mem' same'
    obtain ⟨m, found, isEvery, number⟩ := opener_of_task unnamed mem same
    obtain ⟨m', found', isEvery', number'⟩ := opener_of_task unnamed mem' same'
    obtain ⟨inRange, rfl⟩ := List.getElem?_eq_some_iff.1 found
    obtain ⟨inRange', rfl⟩ := List.getElem?_eq_some_iff.1 found'
    have positive := begun d mem
    have positive' := begun d' mem'
    rcases Nat.lt_trichotomy (d'.1 - 1) (d.1 - 1) with before | at_ | behind
    · exact absurd (number'.trans number.symm) (apart _ _ _ _ before isEvery' isEvery)
    · omega
    · exact absurd (number.trans number'.symm) (apart _ _ _ _ behind isEvery isEvery')
  exact filter_of_unique routes.distinct mem (by simpa using same) fun d' mem' same' =>
    unique d' mem' (by simpa using same')

end

theorem buffer_finish {s : Sketch} {b : Scope} (plain : b ≠ .procedure)
    (opened : s.scope = .procedure → s.open?.isSome = true) : s.finish.buffer b = s.buffer b := by
  obtain ⟨_, _, eq⟩ := dropBlocks_frame (s.leave "end of input") "end of input"
  rw [finish, eq, ← buffer_leave plain opened "end of input"]
  exact buffer_plain rfl rfl rfl b plain

end Sketch

theorem Procedure.filter_latest {signature : String} {qs : List Procedure}
    (once : (qs.filter (·.signature == signature)).length ≤ 1) :
    (latest qs).filter (·.signature == signature) = qs.filter (·.signature == signature) := by
  induction qs with
  | nil => rfl
  | cons q later ih =>
    rw [latest]
    cases same : q.signature == signature with
    | false =>
      rw [List.filter_cons, same] at once ⊢
      split
      · exact ih once
      · rw [List.filter_cons, same]
        exact ih once
    | true =>
      rw [List.filter_cons, same] at once ⊢
      have absent : later.filter (·.signature == signature) = [] := by simpa using once
      have last : later.any (·.signature == q.signature) = false := by
        rw [List.any_eq_false, beq_iff_eq.1 same]
        exact List.filter_eq_nil_iff.1 absent
      rw [last, if_neg (by simp), List.filter_cons, same, ih (by simp [absent])]

theorem deeds_everys (ms : List Moment) : (everys ms).map Moment.deed =
    ((ms.filterMap Moment.statement?).filter Statement.isEvery).map Deed.statement := by
  induction ms with
  | nil => rfl
  | cons m rest ih =>
    obtain ⟨home, s, deed⟩ := m
    cases deed with
    | statement st =>
      cases st with
      | every => exact congrArg (Deed.statement _ :: ·) ih
      | _ => exact ih
    | _ => exact ih

/-- Each `Every` has one time stamp, one task, made of what its body writes, and one poll. -/
theorem everys_wired (options : Options) (sts : List Statement)
    (outside : ∀ st ∈ Statement.allParts sts, ∀ branch ∈ st.branches, branch.isEvery = false)
    (whole : ∀ n interval body, .every n interval body ∈ Statement.allParts sts →
      ∀ part ∈ Statement.allParts body, part.isBoundary = false)
    (unnamed : ∀ n h, .plain n (.procedureStart h) ∈ Statement.allParts sts →
      ∀ k : Nat, h.name ≠ s!"_every_task_{k}") :
    let s := ofStatements options sts
    let tasks := everys (momentsOf options sts)
    tasks.map Moment.deed =
        ((Statement.allParts sts).filter Statement.isEvery).map Deed.statement ∧
      tasks.map Moment.number = List.range' 1 tasks.length ∧
      Pieces Moment.announcement tasks s.globals ∧
      (∃ order, order.Perm tasks ∧ Pieces Moment.polling order s.loop) ∧
      (∀ m ∈ tasks, s.signatures.count (taskSignature m.number) = 1 ∧
        ∃ q, m.Defines q ∧ s.procedures.filter (·.signature == taskSignature m.number) = [q]) ∧
      ∀ n, n ∉ tasks.map Moment.number → taskSignature n ∉ s.signatures ∧
        ∀ q ∈ s.procedures, q.signature ≠ taskSignature n := by
  intro s tasks
  have fits : Fits .start (empty options) := ⟨rfl, by simp [empty], Nat.le_refl _⟩
  have wires := statements_wires sts .start (empty options) fits rfl fun st mem =>
    ⟨outside st mem, fun n interval body same => whole n interval body (same ▸ mem)⟩
  have routes := statements_finishes sts .start (empty options) fits
  have buffers (b : Scope) (plain : b ≠ .procedure) := buffer_finish plain routes.fits.opened.1
  have numbers : tasks.map Moment.number = List.range' 1 tasks.length := wires.numbers
  have orderly : Orderly ⟨s, []⟩ := Moves.orderly ((statements_moves _ _ sts).trans
    ((Moves.leave _ "end of input").trans (Moves.chores (.dropBlocks _ "end of input"))))
    (orderly_empty options)
  -- the forward declarations are those of the procedures, in some order
  have counted (n : Nat) : s.signatures.count (taskSignature n) =
      (s.procedures.filter (·.signature == taskSignature n)).length := by
    rw [← orderly.listed.count_eq, List.count, List.countP_map, List.countP_eq_length_filter]
    rfl
  refine ⟨?_, numbers, ?_, ?_, fun m mem => ?_, fun n other => ?_⟩
  · rw [deeds_everys]
    exact congrArg (fun sts => (sts.filter Statement.isEvery).map Deed.statement)
      (statement?_allMoments sts _ _)
  · obtain ⟨new, eq, pieces⟩ := wires.globals
    rwa [show s.globals = new from (buffers .global (by simp)).trans eq]
  · obtain ⟨new, order, eq, all, pieces⟩ := wires.loop
    refine ⟨order, all, ?_⟩
    rwa [show s.loop = new from (buffers .loop (by simp)).trans eq]
  · obtain ⟨d, among, defines⟩ := wires.tasks m mem
    have signature := defines.signature
    have only := filter_finished unnamed (List.mem_append_left _ among) signature
      (numbers ▸ List.nodup_range')
    have procedures : s.procedures.filter (·.signature == taskSignature m.number) = [d.2] := by
      have once : ((finished options sts).map Prod.snd).filter
          (·.signature == taskSignature m.number) = [d.2] := by
        rw [List.filter_map]
        exact congrArg (List.map Prod.snd) only
      rw [show s.procedures = _ from collected_finished, Procedure.filter_latest (by simp [once]),
        once]
    rw [counted, procedures]
    exact ⟨rfl, d.2, defines, rfl⟩
  · have absent : ∀ q ∈ s.procedures, q.signature ≠ taskSignature n := by
      intro q mem same
      rw [show s.procedures = _ from collected_finished] at mem
      obtain ⟨d, among, rfl⟩ := List.mem_map.1 (Procedure.mem_of_mem_latest mem)
      obtain ⟨m, found, isEvery, rfl⟩ := opener_of_task unnamed among same
      have known := (List.mem_filter.1 (List.mem_of_getElem? found)).1
      exact other (List.mem_map_of_mem (List.mem_filter.2 ⟨known, isEvery⟩))
    refine ⟨fun mem => ?_, absent⟩
    obtain ⟨q, among, same⟩ := List.mem_map.1 (orderly.listed.mem_iff.2 mem)
    exact absent q among same

theorem nested_everys_wired :
    let sts : List Statement :=
      [.every 1 ⟨"100"⟩ [.every 2 ⟨"5"⟩ [.plain 3 .doEvents]],
        .plain 6 (.procedureStart ⟨.sub, "Work", [], none⟩)]
    let tasks := everys (momentsOf .standard sts)
    tasks.map Moment.number = [1, 2] ∧
      ∀ m ∈ tasks, (ofStatements .standard sts).signatures.count (taskSignature m.number) = 1 := by
  intro sts tasks
  obtain ⟨-, numbers, -, -, once, -⟩ := everys_wired .standard sts
    (by simp [sts, Statement.allParts, Statement.parts, Statement.branches])
    (fun n interval body mem => by
      simp only [sts, Statement.allParts, Statement.parts, List.cons_append, List.nil_append,
        List.append_nil, List.mem_cons, Statement.every.injEq, reduceCtorEq, List.not_mem_nil,
        or_false] at mem
      rcases mem with ⟨rfl, rfl, rfl⟩ | ⟨rfl, rfl, rfl⟩ <;>
        simp [Statement.allParts, Statement.parts, Statement.isBoundary])
    (fun n h mem k same => by
      obtain ⟨-, rfl⟩ : n = 6 ∧ h = ⟨.sub, "Work", [], none⟩ := by
        simpa [sts, Statement.allParts, Statement.parts] using mem
      have texts : "Work".toList = "_every_task_".toList ++ (toString k).toList :=
        (congrArg String.toList same).trans (String.toList_append ..)
      exact absurd (congrArg List.head? texts) (by simp))
  exact ⟨numbers, fun m mem => (once m mem).1⟩

end BasicSketch
