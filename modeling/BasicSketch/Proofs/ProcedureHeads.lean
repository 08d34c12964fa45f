import BasicSketch.Proofs.DeclarationLog
import BasicSketch.Proofs.GlobalNames
import BasicSketch.Proofs.PlainLines
import BasicSketch.Proofs.Traceability

set_option autoImplicit false

/-!
Heads of procedures: the header, and the hoisted names below it. A statement marks its first line
in a scope, and a header that finds a procedure open writes the end of it there first, so its own
line has no marker then. Main statement: the head of a procedure belongs to the statement that
opened it if the header has a marker, and otherwise to whatever the line above it belongs to.
-/

namespace BasicSketch

open Text SketchLine

/-! Who opens a procedure. -/

def Moment.Opens (m : Moment) (q : Procedure) : Prop :=
  match m.deed with
  | .statement (.plain _ (.procedureStart h)) =>
    h.scope = .procedure ∧ (m.sketch.procedureStart h).open?.map Procedure.title = some q.title
  | .statement (.every ..) => m.sketch.task.open?.map Procedure.title = some q.title
  | _ => False

theorem Moment.Opens.of_title {m : Moment} {q q' : Procedure} (opens : m.Opens q)
    (same : q.title = q'.title) : m.Opens q' := by
  unfold Moment.Opens at opens ⊢
  rwa [← same]

namespace Sketch

theorem Does.keepsHoisted {a : Action} {keeps : Bool} {s t : Sketch} (does : Does a keeps s t)
    (other : ∀ x v, a ≠ .assign x v) : KeepsHoisted s t := by
  induction does with
  | line | elsewhere => exact (KeepsNames.push ..).hoisted
  | note s => exact (KeepsNames.of_eq rfl rfl rfl : KeepsNames s { s with events := _ }).hoisted
  | turn s => exact (KeepsNames.of_eq rfl rfl rfl : KeepsNames s { s with events := _ }).hoisted
  | hoist _ _ assigns =>
    obtain ⟨v, same⟩ := assigns
    exact absurd same (other _ v)
  | trans _ _ first second => exact first.trans second

theorem keepsHoisted_perform {a : Action} (s : Sketch) (other : ∀ x v, a ≠ .assign x v)
    (inside : ∀ h, a ≠ .procedureStart h) :
    KeepsHoisted s (s.perform a) := by
  cases a with
  | procedureEnd kind => exact (KeepsNames.endProcedure s).hoisted
  | _ => exact (Does.perform s _ inside (by simp)).keepsHoisted other

/-- Each procedure was opened at one of these moments. -/
def Opened (ms : List Moment) (s : Sketch) : Prop := ∀ q ∈ s.drafts, ∃ m ∈ ms, m.Opens q

namespace Opened

variable {ms : List Moment} {s t : Sketch}

theorem more (opened : Opened ms s) (more : List Moment) : Opened (ms ++ more) s :=
  fun q mem => (opened q mem).imp fun _ found => ⟨List.mem_append_left _ found.1, found.2⟩

theorem keeps (opened : Opened ms s) (keeps : KeepsHoisted s t) : Opened ms t := by
  intro q mem
  obtain ⟨q₀, mem₀, same⟩ := keeps q mem
  obtain ⟨m, among, opens⟩ := opened q₀ mem₀
  exact ⟨m, among, opens.of_title (congrArg (fun h => (h.1, h.2.1)) same)⟩

theorem appends (opened : Opened ms s) (appends : Appends s t) : Opened ms t := by
  intro q mem
  rcases List.mem_append.1 mem with finished | current
  · exact opened q (List.mem_append_left _ (appends.procedures ▸ finished))
  · have title := appends.title
    rw [Option.mem_toList.1 current, Option.map_some, eq_comm, Option.map_eq_some_iff] at title
    obtain ⟨q₀, opened₀, same⟩ := title
    obtain ⟨m, among, opens⟩ := opened q₀ (List.mem_append_right _ (by simp [opened₀]))
    exact ⟨m, among, opens.of_title same⟩

/-- A procedure that is new was opened by the statement that is written. -/
theorem enters {m : Moment} (opened : Opened ms s) (enters : Enters s t) (among : m ∈ ms)
    (opens : ∀ q, t.open? = some q → m.Opens q) : Opened ms t := by
  intro q mem
  obtain ⟨new, -⟩ | ⟨q₀, mem₀, same⟩ := enters.drafts q mem
  · exact ⟨m, among, opens q new⟩
  · obtain ⟨m, among, opens⟩ := opened q₀ mem₀
    exact ⟨m, among, opens.of_title (congrArg (fun h => (h.1, h.2.1)) same)⟩

theorem procedureStart {p : Position} (opened : Opened ms s) (n : Nat) (h : ProcedureHeader) :
    Opened (ms ++ s.moments p (.plain n (.procedureStart h))) (s.procedureStart h) := by
  by_cases inside : h.scope = .procedure
  · refine (opened.more _).enters (.procedureStart s h)
      (m := ⟨p.home, s, .statement (.plain n (.procedureStart h))⟩) ?_ fun q new => ?_
    · exact List.mem_append_right _ List.mem_cons_self
    · exact ⟨inside, congrArg (Option.map Procedure.title) new⟩
  · -- `setup` and `loop` are no procedures
    refine (opened.more _).keeps ?_
    unfold ProcedureHeader.scope at inside
    unfold Sketch.procedureStart
    split
    · exact (KeepsNames.enterRoutine s .setup).hoisted
    · split
      · exact (KeepsNames.enterRoutine s .loop).hoisted
      · simp_all

end Opened

theorem history_opened : History Opened where
  rests opened _ keeps := opened.keeps keeps.hoisted
  holds _ _ opened _ := opened.more _
  performs {_ p s} n a opened fits := by
    cases a with
    | assign x v => exact (opened.more _).appends (.perform s rfl)
    | procedureStart h => exact opened.procedureStart n h
    | _ => exact (opened.more _).keeps (keepsHoisted_perform s (by simp) (by simp))
  tasks {_ s} home n interval body opened :=
    opened.enters (.task s) (List.mem_append_right _ List.mem_cons_self)
      fun _ new => congrArg (Option.map Procedure.title) new
  resumes {_ _ s t} before opened q mem := by
    -- the procedure around an `Every` was open before it
    rcases List.mem_append.1 mem with finished | current
    · exact opened q (List.mem_append_left _ finished)
    · exact before.more _ q (List.mem_append_right _ current)

end Sketch

/-! Statements begin without markers. -/

/-- The next line is the first that is written for a statement, or it goes to a branch of a
single-line `If`. -/
def Sketch.Awaits (s : Sketch) (st : Statement) : Prop :=
  s.capture = none → s.author = some st ∧ s.line = st.line ∧ s.marked = []

def Moment.Fresh (m : Moment) : Prop := ∀ st, m.deed = .statement st → m.sketch.Awaits st

namespace Sketch

theorem Awaits.fresh {s : Sketch} {st : Statement} (awaits : s.Awaits st) (home : Home) :
    Moment.Fresh ⟨home, s, .statement st⟩ := by
  rintro _ ⟨⟩
  exact awaits

theorem fresh_actionMoments (s : Sketch) (p : Position) (a : Action) :
    ∀ m ∈ s.actionMoments p a, m.Fresh := by
  intro m mem st deed
  have other := List.filterMap_eq_nil_iff.1 (statement?_actionMoments s p a) m mem
  simp [Moment.statement?, deed] at other

mutual

theorem fresh_moments : (st : Statement) → (s : Sketch) → (p : Position) → s.Awaits st →
    ∀ m ∈ s.moments p st, m.Fresh
  | .plain _ a, s, p, awaits =>
    List.forall_mem_cons.2 ⟨awaits.fresh p.home, fresh_actionMoments s p a⟩
  -- what the branches write is collected, so that nothing is asked of them
  | .inlineIf _ _ thenBranch, _, p, awaits =>
    List.forall_mem_cons.2 ⟨awaits.fresh p.home, fresh_moments thenBranch _ p nofun⟩
  | .inlineIfElse _ _ thenBranch elseBranch, _, p, awaits =>
    List.forall_mem_cons.2 ⟨awaits.fresh p.home, List.forall_mem_append.2
      ⟨fresh_moments thenBranch _ p nofun, fresh_moments elseBranch _ _ nofun⟩⟩
  | .every _ _ body, s, p, awaits =>
    List.forall_mem_cons.2 ⟨awaits.fresh p.home, fresh_allMoments body s.task (p.enter .procedure)⟩

theorem fresh_allMoments : (sts : List Statement) → (s : Sketch) → (p : Position) →
    ∀ m ∈ s.allMoments p sts, m.Fresh
  | [], _, _ => List.forall_mem_nil _
  | first :: rest, s, p => by
    have here := fresh_moments first (s.facing first) p fun _ => ⟨rfl, rfl, rfl⟩
    have later := fresh_allMoments rest (s.statements [first]) (first.moves p)
    rw [allMoments]
    exact List.forall_mem_append.2 ⟨here, later⟩

end

end Sketch

/-! Headers. -/

/-- The lines of a header that a statement writes, below a marker or not. -/
def Statement.headerLines (st : Statement) (marks : Bool) (text : String) : List SketchLine :=
  (if marks then [.marker ⟨some st, false⟩ 0 st.line] else []) ++ [.code ⟨some st, false⟩ 0 text]

namespace Sketch

variable {s : Sketch}

theorem header_begun (s : Sketch) (signature text : String) :
    (((s.begin signature).push false .procedure 0 text).head).open?.map Procedure.header =
      some (if s.capture.isSome then [] else s.pushed false .procedure 0 text) := by
  cases capturing : s.capture with
  | some texts =>
    rw [push_captured (s.begin signature) false .procedure 0 text capturing]
    rfl
  | none =>
    rw [push_open (s.begin signature) false .procedure 0 text capturing]
    rfl

theorem writing_of_capture {s t : Sketch} (same : t.capture.isSome = s.capture.isSome)
    (writing : s.capture = none) : t.capture = none := by
  rw [writing] at same
  simpa using same

/-- From `s` to `t` it is the same statement that writes, in the same way. -/
structure Carries (s t : Sketch) : Prop where
  author : t.author = s.author
  line : t.line = s.line
  capture : t.capture.isSome = s.capture.isSome

namespace Carries

variable {s t u : Sketch}

theorem trans (first : Carries s t) (second : Carries t u) : Carries s u where
  author := second.author.trans first.author
  line := second.line.trans first.line
  capture := second.capture.trans first.capture

theorem push (s : Sketch) (inPlace : Bool) (scope : Scope) (depth : Nat) (text : String) :
    Carries s (s.push inPlace scope depth text) :=
  ⟨by simp, by simp, by simp⟩

theorem writing (carries : Carries s t) (writing : s.capture = none) : t.capture = none :=
  writing_of_capture carries.capture writing

end Carries

theorem carries_dropBlocks (s : Sketch) (closer : String) :
    Carries s (s.dropBlocks closer) ∧ (s.dropBlocks closer).marked = s.marked := by
  obtain ⟨_, _, eq⟩ := dropBlocks_frame s closer
  rw [eq]
  exact ⟨⟨rfl, rfl, rfl⟩, rfl⟩

theorem carries_finishProcedure (s : Sketch) :
    Carries s s.finishProcedure ∧ s.finishProcedure.marked = s.marked := by
  cases opened : s.open? with
  | none => simp [finishProcedure, opened, Carries.mk]
  | some q =>
    obtain ⟨_, _, eq⟩ := finishProcedure_frame opened
    rw [eq]
    exact ⟨⟨rfl, rfl, rfl⟩, rfl⟩

/-- The end of a procedure is written where its code is, and marks it. -/
theorem carries_endProcedure (s : Sketch) :
    Carries s s.endProcedure ∧ (s.capture = none → s.marked = [] →
      s.endProcedure.marked = if s.scope = .procedure then [.procedure] else []) := by
  unfold endProcedure
  cases s.scope with
  | global => exact ⟨⟨rfl, rfl, rfl⟩, fun _ unmarked => unmarked⟩
  | setup | loop =>
    obtain ⟨⟨author, line, capture⟩, marked⟩ := carries_dropBlocks s "End Sub"
    exact ⟨⟨author, line, capture⟩, fun _ unmarked => marked.trans unmarked⟩
  | procedure =>
    -- the closing brace is the first line of the statement there
    obtain ⟨dropped, same⟩ := carries_dropBlocks s "End"
    have closed := dropped.trans (.push _ false .procedure 0 "\x7d")
    obtain ⟨finished, kept⟩ := carries_finishProcedure
      ((s.dropBlocks "End").push false .procedure 0 "\x7d")
    obtain ⟨author, line, capture⟩ := closed.trans finished
    refine ⟨⟨author, line, capture⟩, fun writing unmarked => kept.trans ?_⟩
    rw [push_marked _ false .procedure 0 "\x7d" (dropped.writing writing), same, unmarked]
    rfl

theorem carries_leave (s : Sketch) (reason : String) :
    Carries s (s.leave reason) ∧ (s.capture = none → s.marked = [] →
      (s.leave reason).marked = if s.scope = .procedure then [.procedure] else []) := by
  unfold leave
  split
  · rename_i outside
    rw [if_neg (by simp [beq_iff_eq.1 outside])]
    exact ⟨⟨rfl, rfl, rfl⟩, fun _ unmarked => unmarked⟩
  · obtain ⟨⟨author, line, capture⟩, marked⟩ :=
      carries_endProcedure (s.report (.unclosedProcedure s.line reason))
    exact ⟨⟨author, line, capture⟩, marked⟩

theorem carries_suspend (s : Sketch) :
    Carries s s.announce.suspend ∧ (s.capture = none → s.marked = [] →
      s.announce.suspend.marked = [.global]) := by
  let counted : Sketch := { s with everyCount := s.everyCount + 1 }
  let text := s!"unsigned long _every_last_{s.everyCount + 1} = 0;"
  obtain ⟨author, line, capture⟩ := Carries.push counted false .global 0 text
  refine ⟨⟨author, line, capture⟩, fun writing unmarked => ?_⟩
  exact (push_marked counted false .global 0 text writing).trans (by simp [counted, unmarked])

theorem header_enterProcedure {t : Sketch} {st : Statement} {marked : Bool} (carries : Carries s t)
    (awaits : s.Awaits st)
    (marks : s.capture = none → (t.leave "next procedure").marked.contains .procedure = marked)
    (signature text : String) :
    (t.enterProcedure signature text).open?.map Procedure.header =
      some (if s.capture.isSome then [] else st.headerLines (!marked) text) := by
  -- what was open is left before the header is written
  obtain ⟨author, line, capture⟩ := carries.trans (carries_leave t "next procedure").1
  rw [enterProcedure_eq, header_begun, capture]
  cases writing : s.capture with
  | some texts => rfl
  | none =>
    obtain ⟨facing, number, -⟩ := awaits writing
    unfold pushed Statement.headerLines
    rw [author, line, facing, number, marks writing]
    cases marked <;> rfl

/-- Declaring the name and the parameters of a procedure leaves its title alone. -/
theorem title_openProcedure (s : Sketch) (h : ProcedureHeader) :
    ∃ symbols, ∃ (result : String) (parameters : List String) (text : String),
      (s.openProcedure h).open?.map Procedure.title =
      ({ s with symbols }.enterProcedure (Cpp.called s!"{result} {h.name}" parameters ++ ";")
        text).open?.map Procedure.title := by
  have declared (t : Sketch) (signature text : String) :
      (h.parameters.foldl (fun s p => s.declare p.name)
        ((t.enterProcedure signature text).declare h.name)).open?.map Procedure.title =
      (t.enterProcedure signature text).open?.map Procedure.title :=
    (Mute.declare (t.enterProcedure signature text) h.name).trans
      (Mute.declares Parameter.name h.parameters _) |>.title
  have opened : ∃ (result : String) (parameters : List String) (text : String),
      (s.openProcedure h).open?.map Procedure.title =
      ((s.parameterTexts h.parameters).2.2.enterProcedure
        (Cpp.called s!"{result} {h.name}" parameters ++ ";") text).open?.map Procedure.title :=
    ⟨_, _, _, declared _ _ _⟩
  obtain ⟨symbols, eq, -⟩ := parameterTexts_frame s h.parameters
  exact ⟨symbols, eq ▸ opened⟩

theorem procedureStart_procedure {h : ProcedureHeader} (inside : h.scope = .procedure) :
    s.procedureStart h = s.openProcedure h := by
  unfold ProcedureHeader.scope at inside
  unfold procedureStart
  split at inside <;> simp_all

variable {st : Statement}

theorem header_procedureStart {h : ProcedureHeader} (inside : h.scope = .procedure)
    (awaits : s.Awaits st) :
    ∃ text, (s.procedureStart h).open?.map Procedure.header =
      some (if s.capture.isSome then [] else st.headerLines (!(s.scope == .procedure)) text) := by
  obtain ⟨symbols, _, _, text, title⟩ := title_openProcedure s h
  have header := congrArg (Option.map Prod.snd) title
  rw [Option.map_map, Option.map_map] at header
  have marks (writing : s.capture = none) :
      (Sketch.leave { s with symbols } "next procedure").marked.contains .procedure =
        (s.scope == .procedure) := by
    rw [(carries_leave { s with symbols } _).2 writing (awaits writing).2.2]
    cases s.scope <;> rfl
  refine ⟨text, ?_⟩
  rw [procedureStart_procedure inside]
  exact header.trans
    (header_enterProcedure (t := { s with symbols }) ⟨rfl, rfl, rfl⟩ awaits marks _ text)

theorem header_task (awaits : s.Awaits st) :
    s.task.open?.map Procedure.header =
      some (if s.capture.isSome then []
        else st.headerLines true s!"void _every_task_{s.everyCount + 1}() \x7b") := by
  obtain ⟨carries, marked⟩ := carries_suspend s
  have marks (writing : s.capture = none) :
      (s.announce.suspend.leave "next procedure").marked.contains .procedure = false := by
    rw [leave_of_global rfl, marked writing (awaits writing).2.2]
    rfl
  exact header_enterProcedure carries awaits marks _ _

end Sketch

/-! Moments. -/

namespace Moment

open Sketch

/-- A procedure is open where the statement stands, and the statement ends it. An `Every` sets it
aside. -/
def interrupts (m : Moment) : Bool :=
  match m.deed with
  | .statement (.plain ..) => m.home.scope == .procedure
  | _ => false

/-- A header in a branch of a single-line `If` becomes code of that `If`. -/
theorem Opens.header {m : Moment} {q : Procedure} {st : Statement} (opens : m.Opens q)
    (deed : m.deed = .statement st) (fresh : m.Fresh) (stands : m.sketch.scope = m.home.scope) :
    ∃ text, q.header = if m.sketch.capture.isSome then []
      else st.headerLines (!m.interrupts) text := by
  have titled {t : Sketch} {lines : List SketchLine}
      (title : t.open?.map Procedure.title = some q.title)
      (header : t.open?.map Procedure.header = some lines) : q.header = lines := by
    obtain ⟨q', opened, same⟩ := Option.map_eq_some_iff.1 title
    rw [opened] at header
    exact (congrArg Prod.snd same).symm.trans (Option.some.inj header)
  have awaits := fresh st deed
  unfold Moment.Opens at opens
  unfold interrupts
  rw [deed] at opens ⊢
  split at opens
  case h_1 h same =>
    cases same
    obtain ⟨text, header⟩ := header_procedureStart opens.1 awaits
    exact ⟨text, stands ▸ titled opens.2 header⟩
  case h_2 same =>
    cases same
    exact ⟨_, titled opens (header_task awaits)⟩
  case h_3 => exact opens.elim

end Moment

/-! Lines without a marker. -/

theorem LineMap.sourcesFrom_unmarked {ls : List String} {l : String} {k : Nat}
    (here : ls[k + 1]? = some l) (unmarked : markedLine? l = none) (current : Nat) :
    (sourcesFrom current ls)[k + 1]? = (sourcesFrom current ls)[k]? := by
  induction k generalizing ls current with
  | zero =>
    rcases ls with _ | ⟨first, _ | ⟨second, rest⟩⟩
    · cases here
    · cases here
    · obtain rfl : second = l := by simpa using here
      simp [sourcesFrom, unmarked]
  | succ k ih =>
    cases ls with
    | nil => cases here
    | cons first rest => exact ih (by simpa using here) _

namespace TextLine

/-- No marker is read in this line, whatever its number is. -/
def Silent (t : TextLine) : Prop :=
  ∀ number, LineMap.markedLine? (Sketch.numberedLine number (physical t.text)) = none

theorem silent_ofHeader {origin : Origin} {depth : Nat} {text : String} (code : IsCode text) :
    (ofHeader (.code origin depth text)).Silent :=
  fun number => Sketch.markedLine?_code code depth number

theorem silent_hoisted {name : String} (flat : Flat name) : (hoisted name).Silent :=
  fun number => Sketch.markedLine?_code (IsCode.around flat rfl rfl) 1 number

theorem silent_blank : (fixed "").Silent := by
  intro number
  exact LineMap.markedLine?_of_differs (Sketch.differs_numberLabel number)

end TextLine

namespace Sketch

variable {s : Sketch} {known : Statement → Prop}

theorem sourceLine_silent (tracked : s.Tracked known) {k : Nat} {t : TextLine}
    (here : s.textLines[k + 1]? = some t) (silent : t.Silent) :
    (LineMap.ofText s.render).sourceLine (k + 2) =
      (LineMap.ofText s.render).sourceLine (k + 1) := by
  have shown_here : (shown 1 s.textLines)[k + 1]? =
      some (numberedLine (1 + (k + 1)) (physical t.text)) := by
    simp [shown_eq_mapIdx, here]
  have same := LineMap.sourcesFrom_unmarked shown_here (silent _) 1
  rw [LineMap.sourceLine, LineMap.sourceLine, LineMap.ofText,
    lines_render (mapped_textLines tracked).flat, show k + 2 - 1 = k + 1 from rfl, same,
    Nat.add_sub_cancel]

/-- Lines without a marker belong to whatever the line above them belongs to. -/
theorem sourceLine_below (tracked : s.Tracked known) {above block below : List TextLine}
    (lines : s.textLines = above ++ block ++ below) (some_above : above ≠ [])
    (silent : ∀ t ∈ block, t.Silent) {i : Nat} (inside : i ≤ block.length) :
    (LineMap.ofText s.render).sourceLine (above.length + i) =
      (LineMap.ofText s.render).sourceLine above.length := by
  induction i with
  | zero => rfl
  | succ i ih =>
    obtain ⟨k, position⟩ : ∃ k, above.length + i = k + 1 :=
      Nat.exists_eq_succ_of_ne_zero (by simp [some_above])
    have here : s.textLines[k + 1]? = some block[i] := by
      rw [lines, ← position, List.append_assoc, List.getElem?_append_right (Nat.le_add_right ..),
        Nat.add_sub_cancel_left, List.getElem?_append_left inside, List.getElem?_eq_getElem inside]
    rw [← Nat.add_assoc, position, sourceLine_silent tracked here (silent _ (List.getElem_mem ..)),
      ← position, ih (Nat.le_of_lt inside)]

end Sketch

namespace Procedure

/-- The lines of procedures, each with a blank line behind it. -/
def blocks (ps : List Procedure) : List TextLine := ps.flatMap fun p => p.textLines ++ [.fixed ""]

end Procedure

namespace Sketch

theorem blocks_prefix_textLines (s : Sketch) :
    ∃ front, front ≠ [] ∧ front ++ Procedure.blocks s.procedures <+: s.textLines := by
  unfold textLines Procedure.blocks
  refine ⟨_, ?_, ((((List.prefix_append _ _).trans (List.prefix_append _ _)).trans
    (List.prefix_append _ _)).trans (List.prefix_append _ _)).trans (List.prefix_append _ _)⟩
  exact List.concat_ne_nil _ _

variable {above below : List TextLine} {known : Statement → Prop} {p q : Procedure} {s : Sketch}
  {st : Statement}

theorem silent_head {ls : List SketchLine} {names : List String} (heads : ∀ l ∈ ls, l.Heads known)
    (unmarked : ∀ origin depth source, .marker origin depth source ∉ ls)
    (flat : ∀ n ∈ names, Flat n) :
    ∀ t ∈ ls.map TextLine.ofHeader ++ names.map .hoisted, t.Silent := by
  intro t mem
  rcases List.mem_append.1 mem with header | hoisted
  · obtain ⟨l, among, rfl⟩ := List.mem_map.1 header
    cases l with
    | marker origin depth source => exact absurd among (unmarked origin depth source)
    | code origin depth text => exact TextLine.silent_ofHeader (heads _ among)
  · obtain ⟨n, among, rfl⟩ := List.mem_map.1 hoisted
    exact TextLine.silent_hoisted (flat n among)

theorem sourceLine_head_unmarked (tracked : s.Tracked known) (mem : p ∈ s.procedures)
    (lines : s.textLines = above ++ p.textLines ++ below) (some_above : above ≠ [])
    (unmarked : ∀ origin depth source, .marker origin depth source ∉ p.header) {i : Nat}
    (inside : i ≤ p.header.length + p.hoisted.length) :
    (LineMap.ofText s.render).sourceLine (above.length + i) =
      (LineMap.ofText s.render).sourceLine above.length := by
  obtain ⟨headed, flat, -⟩ := tracked.procedures p mem
  have split : s.textLines =
      above ++ (p.header.map TextLine.ofHeader ++ p.hoisted.map .hoisted) ++
        (p.body.map .written ++ below) := by
    rw [lines, Procedure.textLines]
    simp only [List.append_assoc]
  exact sourceLine_below tracked split some_above (silent_head headed.header unmarked flat)
    (by simpa using inside)

theorem sourceLine_head_marked (tracked : s.Tracked known) (mem : p ∈ s.procedures)
    (lines : s.textLines = above ++ p.textLines ++ below) {text : String}
    (header : p.header = st.headerLines true text) {i : Nat}
    (inside : i < p.header.length + p.hoisted.length) :
    (LineMap.ofText s.render).sourceLine (above.length + i + 1) = st.line := by
  obtain ⟨headed, flat, -⟩ := tracked.procedures p mem
  let mark : TextLine := .written (.marker ⟨some st, false⟩ 0 st.line)
  let code : SketchLine := .code ⟨some st, false⟩ 0 text
  have split : s.textLines =
      (above ++ [mark]) ++ ([code].map TextLine.ofHeader ++ p.hoisted.map .hoisted) ++
        (p.body.map .written ++ below) := by
    rw [lines, Procedure.textLines, header]
    simp [Statement.headerLines, TextLine.ofHeader, mark, code]
  have here : s.textLines[above.length]? = some mark := by simp [split]
  -- the marker comes first, and the lines below it have none
  have heads : ∀ l ∈ [code], l.Heads known := fun l among => headed.header l (by
    rw [header]
    exact List.mem_append_right _ among)
  have bound : i ≤ ([code].map TextLine.ofHeader ++ p.hoisted.map TextLine.hoisted).length := by
    simp [header, Statement.headerLines] at inside ⊢
    omega
  have same := sourceLine_below tracked split (by simp)
    (silent_head heads (by simp [code]) flat) bound
  rw [List.length_append, List.length_singleton, (sourceLine_render tracked here rfl).2] at same
  rw [Nat.add_right_comm]
  exact same

/-- The blank line behind a procedure belongs to the statement that wrote the end of it. -/
theorem sourceLine_behind (tracked : s.Tracked known)
    (lines : s.textLines = above ++ q.textLines ++ [.fixed ""] ++ below) {line : SketchLine}
    (last : q.body.getLast? = some line) (author : line.origin.author = some st) :
    (LineMap.ofText s.render).sourceLine (above.length + q.textLines.length + 1) = st.line := by
  obtain ⟨init, body⟩ := List.getLast?_eq_some_iff.1 last
  let others := q.header.map TextLine.ofHeader ++ q.hoisted.map .hoisted ++ init.map .written
  have text : q.textLines = others ++ [.written line] := by
    simp [Procedure.textLines, body, others]
  have here : s.textLines[above.length + others.length]? = some (.written line) := by
    simp [lines, text]
  have behind : s.textLines[above.length + others.length + 1]? = some (.fixed "") := by
    simp [lines, text, Nat.add_assoc]
  have source := sourceLine_silent tracked behind TextLine.silent_blank
  rw [(sourceLine_render tracked here author).2] at source
  rw [text, List.length_append, ← Nat.add_assoc]
  exact source

end Sketch

open Sketch

theorem Moment.Opens.statement {m : Moment} {q : Procedure} (opens : m.Opens q) :
    ∃ st, m.deed = .statement st := by
  cases deed : m.deed with
  | statement st => exact ⟨st, rfl⟩
  | _ => simp [Moment.Opens, deed] at opens

theorem tracked_ofSource (options : Options) {source : String}
    (short : (lines source).length ≤ maxLong) :
    (Sketch.ofStatements options (Program.ofSource source).statements).Tracked
      (· ∈ Statement.listing (Program.ofSource source).statements) :=
  tracked_ofStatements options (clean_ofSource source) (fun _ => id) fun _ mem =>
    Nat.le_trans (Statement.line_le_of_mem_listing mem) short

/-- The lines at the head of a procedure belong to the statement that opened it, unless that had to
end a procedure first or stands in a branch of a single-line `If`. Then they belong to whatever the
line above them does; that is right if the procedure that was ended stands above. -/
theorem procedure_head_source (options : Options) (source : String)
    (short : (lines source).length ≤ maxLong) :
    let statements := (Program.ofSource source).statements
    let sketch := Sketch.ofStatements options statements
    let code := (Output.ofSource options source).code
    let map := LineMap.ofText code
    lines code = (sketch.textLines.mapIdx fun k t => numberedLine (k + 1) (physical t.text)) ∧
      ∃ front rest, front ≠ [] ∧
        sketch.textLines = front ++ Procedure.blocks sketch.procedures ++ rest ∧
        ∀ before p after, sketch.procedures = before ++ p :: after →
          let above := (front ++ Procedure.blocks before).length
          ∃ m ∈ momentsOf options statements, ∃ st text, m.deed = .statement st ∧ m.Opens p ∧
            (p.header = if m.sketch.capture.isSome then []
              else st.headerLines (!m.interrupts) text) ∧
            (∀ i < p.header.length + p.hoisted.length, map.sourceLine (above + i + 1) =
              if m.sketch.capture.isSome || m.interrupts then map.sourceLine above else st.line) ∧
            ∀ q line, before.getLast? = some q → q.body.getLast? = some line →
              line.origin.author = some st → map.sourceLine above = st.line := by
  rw [code_ofSource]
  intro statements sketch code map
  have tracked := tracked_ofSource options short
  obtain ⟨front, some_front, rest, written⟩ := blocks_prefix_textLines sketch
  refine ⟨?_, front, rest, some_front, written.symm, fun before p after split => ?_⟩
  · rw [lines_render (mapped_textLines tracked).flat, shown_eq_mapIdx]
    simp only [Nat.add_comm 1]
    rfl
  -- the statement that opened the procedure, and what it wrote as the header
  have mem : p ∈ sketch.procedures := by simp [split]
  have start : Opened [] (empty options) := by simp [Opened, drafts, empty]
  obtain ⟨m, among, opens⟩ := history_opened.run start statements p (List.mem_append_left _ mem)
  obtain ⟨st, deed⟩ := opens.statement
  have routes := ofStatements_finished options statements
  have stands := (routes.stands m among (by simp [Moment.isStatement, deed])).1
  obtain ⟨text, header⟩ := opens.header deed (fresh_allMoments statements _ _ m among) stands
  -- where the procedure stands in the text
  have placed : sketch.textLines = (front ++ Procedure.blocks before) ++
      p.textLines ++ (.fixed "" :: (Procedure.blocks after ++ rest)) := by
    rw [← written, split]
    simp [Procedure.blocks]
  refine ⟨m, among, st, text, deed, opens, header, fun i inside => ?_,
    fun q line last end_ author => ?_⟩
  · cases bare : m.sketch.capture.isSome || m.interrupts with
    | true =>
      have unmarked : ∀ origin depth source, .marker origin depth source ∉ p.header := by
        rw [header]
        rcases Bool.or_eq_true_iff.1 bare with captured | interrupts
        · simp [captured]
        · split <;> simp [interrupts, Statement.headerLines]
      rw [if_pos rfl, Nat.add_assoc]
      exact sourceLine_head_unmarked tracked mem placed (by simp [some_front]) unmarked inside
    | false =>
      obtain ⟨writing, closed⟩ := Bool.or_eq_false_iff.1 bare
      rw [writing, closed] at header
      rw [if_neg Bool.false_ne_true]
      exact sourceLine_head_marked tracked mem placed header inside
  · obtain ⟨init, rfl⟩ := List.getLast?_eq_some_iff.1 last
    have behind : sketch.textLines = (front ++ Procedure.blocks init) ++
        q.textLines ++ [.fixed ""] ++ (Procedure.blocks (p :: after) ++ rest) := by
      rw [← written, split]
      simp [Procedure.blocks]
    have position : (front ++ Procedure.blocks init).length + q.textLines.length + 1 =
        (front ++ Procedure.blocks (init ++ [q])).length := by
      simp [Procedure.blocks, Nat.add_assoc]
    exact position ▸ sourceLine_behind tracked behind end_ author

/-- The second header ends `A`, and the later `A` takes the place of that end: the header stands
without a marker above all that have one. -/
theorem procedure_head_source_interrupted :
    let source := "Sub A()\nSub B()\nEnd Sub\nSub A()\nEnd Sub"
    let statements := (Program.ofSource source).statements
    let sketch := Sketch.ofStatements .standard statements
    let code := (Output.ofSource .standard source).code
    (lines source).length ≤ maxLong ∧
      (∃ p after, sketch.procedures = p :: after ∧
        ∃ m ∈ momentsOf .standard statements, ∃ st text, m.deed = .statement st ∧ m.Opens p ∧
          m.interrupts = true ∧ st.line = 2 ∧ p.header = [.code ⟨some st, false⟩ 0 text]) ∧
      (lines code)[6]? = some "void B() \x7b // L0007" ∧
      (LineMap.ofText code).sourceLine 7 = 1 := by
  intro source statements sketch code
  have read : statements = _ := Program.statements_ofSource (by decide +kernel)
  have short : (lines source).length ≤ maxLong := by decide
  have authors : (sketch.procedures.map fun p => p.header.map fun l =>
      l.origin.author.map Statement.line) = [[some 2], [some 4, some 4]] := by
    simp only [sketch, read]
    decide +kernel
  have text : lines code = sketch.textLines.mapIdx fun k t =>
      numberedLine (k + 1) (physical t.text) := (procedure_head_source .standard source short).1
  obtain ⟨-, _, _, -, -, heads⟩ := procedure_head_source .standard source short
  have shown_code : (lines code)[6]? = some "void B() \x7b // L0007" ∧
      (LineMap.ofText code).sourceLine 7 = 1 := by
    rw [LineMap.ofText, text]
    simp only [sketch, read]
    decide +kernel
  obtain ⟨p, after, split, author, -⟩ := List.map_eq_cons_iff.1 authors
  obtain ⟨m, among, st, text, deed, opens, header, -⟩ := heads [] p after split
  rw [header] at author
  refine ⟨short, ⟨p, after, split, m, among, st, text, deed, opens, ?_⟩, shown_code⟩
  cases captured : m.sketch.capture.isSome with
  | true => simp [captured] at author
  | false =>
    cases interrupts : m.interrupts with
    | false => simp [captured, interrupts, Statement.headerLines] at author
    | true =>
      simp only [captured, interrupts] at author header
      exact ⟨rfl, by simpa [Statement.headerLines, SketchLine.origin] using author, header⟩

end BasicSketch
