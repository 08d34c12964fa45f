import BasicSketch.Proofs.SideBySide

set_option autoImplicit false

/-! Two writings of one statement. -/

namespace BasicSketch

open Text

def SketchLine.codes (ls : List SketchLine) : List String :=
  ls.filterMap fun
    | .marker .. => none
    | .code _ _ text => some (trim text)

namespace Procedure

def code (p : Procedure) : List SketchLine := p.header ++ p.body

def outline (p : Procedure) : Procedure := { p with header := [], body := [] }

/-- The code of the procedure is that of the open one, or none, and behind it lines that fit. -/
def Resumes (fits : List SketchLine → Prop) (open? : Option Procedure) (p : Procedure) : Prop :=
  ∃ old new, (old = [] ∨ ∃ q ∈ open?, q.code = old) ∧ p.code = old ++ new ∧ fits new

theorem Resumes.mono {fits fits' : List SketchLine → Prop} {open? : Option Procedure}
    {p : Procedure} (weaker : ∀ new, fits new → fits' new) (resumes : p.Resumes fits open?) :
    p.Resumes fits' open? := by
  obtain ⟨old, new, begun, code, fit⟩ := resumes
  exact ⟨old, new, begun, code, weaker new fit⟩

end Procedure

namespace Sketch

/-- What the sketch knows: all but its code, its markers and what it captures. -/
def outline (s : Sketch) : Sketch :=
  { s with
    globals := []
    setup := []
    loop := []
    procedures := s.procedures.map Procedure.outline
    open? := s.open?.map Procedure.outline
    marked := []
    capture := none }

def written (s : Sketch) : List SketchLine × List SketchLine × List SketchLine × List Procedure ×
    Option (List SketchLine) × Option (List String) :=
  (s.globals, s.setup, s.loop, s.procedures, s.open?.map Procedure.code, s.capture)

def Allows (s : Sketch) (texts : List String) (new : List SketchLine) : Prop :=
  if s.capture.isSome then new = [] else (SketchLine.codes new).Sublist texts

theorem Allows.nil (s : Sketch) (texts : List String) : s.Allows texts [] := by
  unfold Allows
  split
  · rfl
  · exact List.nil_sublist texts

theorem Allows.append {s s' : Sketch} {texts more : List String} {new new' : List SketchLine}
    (same : s'.capture.isSome = s.capture.isSome) (first : s.Allows texts new)
    (second : s'.Allows more new') : s.Allows (texts ++ more) (new ++ new') := by
  unfold Allows at first second ⊢
  rw [same] at second
  cases capturing : s.capture.isSome with
  | true =>
    rw [if_pos capturing] at first second
    rw [first, second]
    rfl
  | false =>
    rw [if_neg (by simp [capturing])] at first second
    rw [SketchLine.codes, List.filterMap_append]
    exact first.append second

/-- These texts are captured, or else they are the only code that is added. -/
structure Adds (texts : List String) (s s' : Sketch) : Prop where
  capture : s'.capture = s.capture.map (· ++ texts)
  lines : ∀ b, b ≠ .procedure → ∃ new, s'.buffer b = s.buffer b ++ new ∧ s.Allows texts new
  opened : ∀ p ∈ s'.open?, p.Resumes (s.Allows texts) s.open?
  finished : ∀ p ∈ s'.procedures, p ∈ s.procedures ∨ p.Resumes (s.Allows texts) s.open?

def Finishes (texts : List String) (s s' : Sketch) : Prop :=
  ∀ p ∈ s'.procedures, p ∈ s.procedures ∨ s.Allows texts p.code

namespace Adds

variable {s s' s'' : Sketch} {texts more : List String}

theorem isSome (adds : Adds texts s s') : s'.capture.isSome = s.capture.isSome := by
  rw [adds.capture, Option.isSome_map]

theorem resumes (adds : Adds texts s s') {p : Procedure}
    (later : p.Resumes (s'.Allows more) s'.open?) :
    p.Resumes (s.Allows (texts ++ more)) s.open? := by
  obtain ⟨old, new, begun, code, allowed⟩ := later
  rcases begun with absent | ⟨q, opened, same⟩
  · refine ⟨[], new, .inl rfl, by rw [code, absent], ?_⟩
    exact (Allows.nil s texts).append adds.isSome allowed
  · obtain ⟨older, newer, begun, earlier, before⟩ := adds.opened q opened
    refine ⟨older, newer ++ new, begun, ?_, before.append adds.isSome allowed⟩
    rw [code, ← same, earlier, List.append_assoc]

theorem trans (first : Adds texts s s') (second : Adds more s' s'') :
    Adds (texts ++ more) s s'' where
  capture := by
    rw [second.capture, first.capture, Option.map_map]
    congr 1
    funext before
    exact List.append_assoc before texts more
  lines b plain := by
    obtain ⟨new, eq, allowed⟩ := first.lines b plain
    obtain ⟨new', eq', allowed'⟩ := second.lines b plain
    exact ⟨new ++ new', by rw [eq', eq, List.append_assoc], allowed.append first.isSome allowed'⟩
  opened p here := first.resumes (second.opened p here)
  finished p here := by
    have widen (new : List SketchLine) (allowed : s.Allows texts new) :
        s.Allows (texts ++ more) new := by
      simpa using allowed.append rfl (Allows.nil s more)
    rcases second.finished p here with before | resumes
    · exact (first.finished p before).imp_right (.mono widen)
    · exact .inr (first.resumes resumes)

theorem resumes_of_code {p : Procedure}
    (same : s'.open?.map Procedure.code = s.open?.map Procedure.code) (here : p ∈ s'.open?) :
    p.Resumes (s.Allows texts) s.open? := by
  rw [Option.mem_def.1 here] at same
  obtain ⟨q, opened, code⟩ := Option.map_eq_some_iff.1 same.symm
  exact ⟨q.code, [], .inr ⟨q, opened, rfl⟩, by rw [code, List.append_nil], Allows.nil s texts⟩

theorem of_buffers (capture : s'.capture = s.capture) (globals : s'.globals = s.globals)
    (setup : s'.setup = s.setup) (loop : s'.loop = s.loop)
    (opened : ∀ p ∈ s'.open?, p.Resumes (s.Allows []) s.open?)
    (finished : ∀ p ∈ s'.procedures, p ∈ s.procedures ∨ p.Resumes (s.Allows []) s.open?) :
    Adds [] s s' where
  capture := by
    rw [capture]
    cases s.capture <;> simp
  lines b plain :=
    ⟨[], by rw [buffer_plain globals setup loop b plain, List.append_nil], Allows.nil s []⟩
  opened := opened
  finished := finished

theorem kept (same : s'.written = s.written) : Adds [] s s' := by
  simp only [written, Prod.mk.injEq] at same
  obtain ⟨globals, setup, loop, procedures, code, capture⟩ := same
  refine of_buffers capture globals setup loop (fun p here => resumes_of_code code here) ?_
  intro p here
  exact .inl (procedures ▸ here)

theorem codes_pushed (s : Sketch) (inPlace : Bool) (scope : Scope) (depth : Nat) (text : String) :
    SketchLine.codes (s.pushed inPlace scope depth text) = [trim text] := by
  unfold pushed
  split <;> rfl

theorem buffer_push_allows (s : Sketch) (inPlace : Bool) (scope : Scope) (depth : Nat)
    (text : String) (b : Scope) :
    ∃ new, (s.push inPlace scope depth text).buffer b = s.buffer b ++ new ∧
      s.Allows [trim text] new := by
  cases capturing : s.capture with
  | some before =>
    refine ⟨[], ?_, Allows.nil s _⟩
    rw [buffer_push_captured _ _ _ _ _ (by simp [capturing]), List.append_nil]
  | none =>
    refine ⟨_, buffer_push _ _ _ _ _ capturing b, ?_⟩
    unfold Allows
    rw [if_neg (by simp [capturing])]
    split
    · exact (codes_pushed s inPlace scope depth text).symm ▸ List.Sublist.refl _
    · exact List.nil_sublist _

theorem push (s : Sketch) (inPlace : Bool) (scope : Scope) (depth : Nat) (text : String) :
    Adds [trim text] s (s.push inPlace scope depth text) where
  capture := by
    cases capturing : s.capture with
    | some before => rw [push_captured s inPlace scope depth text capturing, Option.map_some]
    | none =>
      have still := push_isSome_capture s inPlace scope depth text
      rw [capturing, Option.isSome_none] at still
      exact Option.not_isSome_iff_eq_none.1 (Bool.eq_false_iff.1 still)
  lines b _ := buffer_push_allows s inPlace scope depth text b
  opened p here := by
    have heading := push_heading s inPlace scope depth text
    rw [Option.mem_def.1 here] at heading
    obtain ⟨q, opened, same⟩ := Option.map_eq_some_iff.1 heading.symm
    obtain ⟨new, grown, allowed⟩ := buffer_push_allows s inPlace scope depth text .procedure
    have body : p.body = q.body ++ new := by
      simpa [buffer, Option.mem_def.1 here, opened] using grown
    have header : q.header = p.header := congrArg (·.2.1) same
    refine ⟨q.code, new, .inr ⟨q, opened, rfl⟩, ?_, allowed⟩
    rw [Procedure.code, Procedure.code, body, header, List.append_assoc]
  finished p here := .inl (by rwa [push_procedures] at here)

theorem finishProcedure (s : Sketch) : Adds [] s s.finishProcedure := by
  unfold Sketch.finishProcedure
  cases opened : s.open? with
  | none => exact kept rfl
  | some q =>
    obtain ⟨procedures, signatures, events, eq, joined, -⟩ :=
      addProcedure_frame { s with open? := none } q
    simp only [eq]
    refine of_buffers rfl rfl rfl rfl (by simp) fun p here => ?_
    rcases joined p here with before | rfl
    · exact .inl before
    · exact .inr (@resumes_of_code s s [] p rfl opened)

theorem begins (s : Sketch) (signature : String) : Adds [] s (s.begin signature) := by
  refine of_buffers rfl rfl rfl rfl (fun p here => ?_) fun p here => .inl here
  obtain rfl : _ = p := Option.some.inj here
  exact ⟨[], [], .inl rfl, rfl, Allows.nil s []⟩

theorem resume (before : Sketch) (adds : Adds texts before.suspend s) :
    Adds texts before (s.resume before) where
  capture := adds.capture
  lines b plain := by
    obtain ⟨new, eq, allowed⟩ := adds.lines b plain
    refine ⟨new, ?_, allowed⟩
    rw [@buffer_plain s (s.resume before) rfl rfl rfl b plain, eq,
      @buffer_plain before before.suspend rfl rfl rfl b plain]
  opened p here := @resumes_of_code before before texts p rfl here
  finished p here := by
    refine (adds.finished p here).imp_right fun resumes => ?_
    obtain ⟨old, new, begun, code, allowed⟩ := resumes
    rcases begun with absent | ⟨q, opened, -⟩
    · exact ⟨[], new, .inl rfl, by rw [code, absent], allowed⟩
    · cases opened

theorem captured (adds : Adds texts { s with capture := some [] } s') :
    s'.capture = some texts ∧ Adds [] s { s' with capture := s.capture } := by
  have absent (new : List SketchLine)
      (allowed : ({ s with capture := some [] } : Sketch).Allows texts new) :
      s.Allows [] new := by
    obtain rfl : new = [] := allowed
    exact Allows.nil s []
  refine ⟨by simpa using adds.capture, ?_, fun b plain => ?_, fun p here => ?_, fun p here => ?_⟩
  · cases s.capture <;> simp
  · obtain ⟨new, eq, allowed⟩ := adds.lines b plain
    refine ⟨new, ?_, absent new allowed⟩
    cases b with
    | procedure => exact absurd rfl plain
    | _ => exact eq
  · exact (adds.opened p here).mono absent
  · exact (adds.finished p here).imp_right (.mono absent)

theorem task {a b : List String} {t t' : Sketch} (announced : Adds a s s.announce)
    (task : Adds b s.announce.suspend t) (polled : Adds more (t.resume s.announce) t')
    (procedures : t'.procedures = t.procedures) :
    Adds (a ++ b ++ more) s t' ∧ Finishes (a ++ b ++ more) s t' := by
  have resumed := announced.trans task.resume
  refine ⟨resumed.trans polled, fun p here => ?_⟩
  rw [procedures] at here
  have before : s.announce.suspend.procedures = s.procedures := push_procedures ..
  rcases task.finished p here with earlier | ⟨old, new, begun, code, allowed⟩
  · exact .inl (before ▸ earlier)
  · -- nothing is open where the task begins
    obtain rfl : old = [] := begun.resolve_right fun ⟨q, opened, _⟩ => by cases opened
    rw [code]
    have later := ((Allows.nil s a).append announced.isSome allowed).append resumed.isSome
      (Allows.nil _ more)
    exact .inr (by simpa using later)

end Adds

variable (s : Sketch)

theorem outline_push (inPlace : Bool) (scope : Scope) (depth : Nat) (text : String) :
    (s.push inPlace scope depth text).outline = s.outline := by
  obtain ⟨globals, setup, loop, open?, marked, capture, eq, heading, -⟩ :=
    push_frame s inPlace scope depth text
  -- an outline is what the heading has beside its lines
  have same := congrArg (Option.map fun h => (⟨h.1, [], h.2.2, []⟩ : Procedure)) heading
  simp only [Option.map_map] at same
  rw [eq]
  unfold outline
  dsimp only
  rw [show open?.map Procedure.outline = s.open?.map Procedure.outline from same]

theorem outline_addProcedure (p : Procedure) :
    (s.addProcedure p).outline = s.outline.addProcedure p.outline := by
  have again : s.outline.procedures.any (·.signature == p.signature) =
      s.procedures.any (·.signature == p.signature) := by
    simp [outline, Procedure.outline, Function.comp_def]
  have others : (s.procedures.map Procedure.outline).filter (·.signature != p.signature) =
      (s.procedures.filter (·.signature != p.signature)).map Procedure.outline := by
    rw [List.filter_map]
    rfl
  unfold addProcedure
  rw [show p.outline.signature = p.signature from rfl, again]
  split
  · simp [outline, report, others]
  · simp [outline]

theorem outline_finishProcedure : s.finishProcedure.outline = s.outline.finishProcedure := by
  unfold finishProcedure
  cases opened : s.open? with
  | none => simp [outline, opened]
  | some p =>
    have added := outline_addProcedure { s with open? := none } p
    simp only [outline, opened, Option.map_some, Option.map_none] at added ⊢
    exact added

def Beside (s c s' c' : Sketch) : Prop :=
  s'.outline = c'.outline ∧ ∃ texts, Adds texts s s' ∧ Adds texts c c'

def Apart (s c s' c' : Sketch) : Prop :=
  s'.outline = c'.outline ∧ ∃ texts, (Adds texts s s' ∧ Finishes texts s s') ∧
    (Adds texts c c' ∧ Finishes texts c c')

namespace Beside

variable {s c s' c' s'' c'' : Sketch}

theorem next (first : Beside s c s' c')
    (second : s'.outline = c'.outline → Beside s' c' s'' c'') : Beside s c s'' c'' := by
  obtain ⟨same, texts, here, there⟩ := first
  obtain ⟨still, more, here', there'⟩ := second same
  exact ⟨still, texts ++ more, here.trans here', there.trans there'⟩

theorem kept (same : s'.outline = c'.outline) (here : s'.written = s.written)
    (there : c'.written = c.written) : Beside s c s' c' :=
  ⟨same, [], .kept here, .kept there⟩

theorem note {g : Sketch → Sketch} (outlines : ∀ t, (g t).outline = g t.outline)
    (unwritten : ∀ t, (g t).written = t.written) (same : s.outline = c.outline) :
    Beside s c (g s) (g c) :=
  kept (by rw [outlines, outlines, same]) (unwritten s) (unwritten c)

theorem head (same : s.outline = c.outline) (here : ∀ p ∈ s.open?, p.header = [])
    (there : ∀ p ∈ c.open?, p.header = []) : Beside s c s.head c.head := by
  have outlined (t : Sketch) : t.head.outline = t.outline := by
    cases opened : t.open? <;> simp [Sketch.head, outline, opened, Procedure.outline]
  have unwritten {t : Sketch} (absent : ∀ p ∈ t.open?, p.header = []) :
      t.head.written = t.written := by
    cases opened : t.open? with
    | none => simp [Sketch.head, written, opened]
    | some p => simp [Sketch.head, written, opened, Procedure.code, absent p opened]
  exact kept (by rw [outlined, outlined, same]) (unwritten here) (unwritten there)

theorem line (same : s.outline = c.outline) (inPlace : Bool) (scope : Scope) (depth : Nat)
    (text : String) :
    Beside s c (s.push inPlace scope depth text) (c.push inPlace scope depth text) :=
  ⟨by rw [outline_push, outline_push, same], [trim text], .push .., .push ..⟩

theorem enter (same : s.outline = c.outline) (signature header : String) :
    Beside s c ((s.begin signature).push false .procedure 0 header).head
      ((c.begin signature).push false .procedure 0 header).head := by
  have begun {t : Sketch} :
      ∀ p ∈ ((t.begin signature).push false .procedure 0 header).open?, p.header = [] := by
    intro p here
    have heading := push_heading (t.begin signature) false .procedure 0 header
    rw [Option.mem_def.1 here] at heading
    exact congrArg (·.2.1) (Option.some.inj heading)
  have begins : Beside s c (s.begin signature) (c.begin signature) :=
    ⟨congrArg (Sketch.begin · signature) same, [], .begins .., .begins ..⟩
  exact (begins.next fun same => line same ..).next fun same => head same begun begun

theorem captured {write write' : Sketch → Sketch}
    (beside : Beside { s with capture := some [] } { c with capture := some [] }
      (write { s with capture := some [] }) (write' { c with capture := some [] })) :
    (s.captured write).1 = (c.captured write').1 ∧
      Beside s c (s.captured write).2 (c.captured write').2 := by
  obtain ⟨still, texts, here, there⟩ := beside
  obtain ⟨text, adds⟩ := here.captured
  obtain ⟨text', adds'⟩ := there.captured
  refine ⟨?_, still, [], adds, adds'⟩
  unfold Sketch.captured
  dsimp only
  rw [text, text']

theorem signed (same : s.outline = c.outline) (author : Option Statement) :
    Beside s c { s with author } { c with author } :=
  note (g := fun t => { t with author }) (fun _ => rfl) (fun _ => rfl) same

theorem started (same : s.outline = c.outline) (n : Nat) : Beside s c (s.start n) (c.start n) :=
  note (g := (Sketch.start · n)) (fun _ => rfl) (fun _ => rfl) same

end Beside

theorem sideBySide_outline :
    SideBySide id (fun s c => s.outline = c.outline) Beside where
  agree beside := beside.1
  trans first second := first.next fun _ => second
  basis {s c} same := by
    have same_basis (t : Sketch) : t.basis = t.outline.basis := by
      simp [Sketch.basis, outline, Function.comp_def]
    rw [same_basis s, same_basis c, same]
  note same symbols includes sprites blocks scope globalNames localNames everyCount :=
    .kept (congrArg (fun t => { t with
      symbols, includes, sprites, blocks, scope, globalNames, localNames, everyCount }) same)
      rfl rfl
  report {s c} same e _ := by
    have lines : s.outline.line = c.outline.line := by rw [same]
    rw [show s.line = c.line from lines]
    exact .note (g := (Sketch.report · (e c.line))) (fun _ => rfl) (fun _ => rfl) same
  push := Beside.line
  hoisting same name := by
    refine .note (g := (Sketch.hoisting · name)) (fun t => ?_) (fun t => ?_) same
    · cases opened : t.open? <;> simp [Sketch.hoisting, outline, opened, Procedure.outline]
    · cases opened : t.open? <;> simp [Sketch.hoisting, written, opened, Procedure.code]
  finish same :=
    ⟨by rw [outline_finishProcedure, outline_finishProcedure, same], [], .finishProcedure _,
      .finishProcedure _⟩
  enter := Beside.enter
  suspend same := congrArg Sketch.suspend same
  resume same beside := by
    obtain ⟨still, texts, here, there⟩ := beside
    have resumed := congr (congrArg Sketch.resume still) same
    exact ⟨resumed, texts, here.resume, there.resume⟩
  captured same beside := Beside.captured (beside _ _ same)
  start := Beside.started
  again {s c _ _} same still := by
    have lines : s.outline.line = c.outline.line := by rw [same]
    rw [show s.line = c.line from lines]
    exact Beside.started still c.line
  writeFor {s c _ _} same st beside := by
    have authors : s.outline.author = c.outline.author := by rw [same]
    unfold Sketch.writeFor
    rw [Statement.renumber_id, show s.author = c.author from authors]
    exact ((Beside.signed same (some st)).next (beside _ _)).next fun same =>
      Beside.signed same c.author

section Statements

variable {s c : Sketch} (same : s.outline = c.outline)

include same

theorem Beside.place (st : Statement) : Beside s c (s.place st) (c.place st) := by
  have beside := sideBySide_outline.place st s c same
  rwa [Statement.renumber_id] at beside

theorem Beside.statements (sts : List Statement) :
    Beside s c (s.statements sts) (c.statements sts) := by
  have beside := sideBySide_outline.statements sts s c same
  rwa [Statement.renumberAll_id] at beside

theorem Beside.everyTask (body : List Statement) :
    Beside s.announce.suspend c.announce.suspend
      (((s.task.statements body).start s.line).endProcedure.leave "end of Every block")
      (((c.task.statements body).start c.line).endProcedure.leave "end of Every block") :=
  sideBySide_outline.everyTask same fun _ _ same => Beside.statements same body

theorem apart_every (interval : Expr) (body : List Statement) :
    Apart s c (s.emitEvery interval fun s => s.statements body)
      (c.emitEvery interval fun s => s.statements body) := by
  have count : s.everyCount = c.everyCount :=
    sideBySide_outline.read same Sketch.everyCount fun _ => rfl
  obtain ⟨announced, a, announces, announces'⟩ := sideBySide_outline.announce same
  have task := Beside.everyTask same body
  obtain ⟨still, -⟩ := sideBySide_outline.resume announced task
  obtain ⟨-, b, task, task'⟩ := task
  obtain ⟨polled, more, polls, polls'⟩ := sideBySide_outline.poll still
    (congrArg (· + 1) count) (sideBySide_outline.value same interval)
  have unfinished (t : Sketch) (id : Nat) (interval : String) :
      (t.poll id interval).procedures = t.procedures := by
    simp [Sketch.poll, emitLoop]
  rw [emitEvery_eq, emitEvery_eq]
  exact ⟨polled, a ++ b ++ more, announces.task task polls (unfinished ..),
    announces'.task task' polls' (unfinished ..)⟩

end Statements

/-- The code at the place where the next statement is written, line by line. -/
def codeHere (s : Sketch) : List String :=
  s.capture.getD (SketchLine.codes (s.buffer (s.landing s.scope)))

variable {text : String}

theorem codeHere_push (tight : trim text = text) (s : Sketch) (depth : Nat) :
    (s.push true s.scope depth text).codeHere = s.codeHere ++ [text] := by
  cases capturing : s.capture with
  | some texts =>
    rw [push_captured s true s.scope depth text capturing]
    simp [codeHere, capturing, tight]
  | none =>
    have writing : (s.push true s.scope depth text).capture = none := by
      rw [(Adds.push s true s.scope depth text).capture, capturing, Option.map_none]
    have code := Adds.codes_pushed s true s.scope depth text
    rw [tight, SketchLine.codes] at code
    rw [codeHere, codeHere, writing, capturing, push_scope, push_landing,
      buffer_push s true s.scope depth text capturing, if_pos rfl]
    simp [SketchLine.codes, code]

theorem tight_of_ends {c d : Char} (begins : Begins c text) (ends : Ends d text)
    (first : isBlank c = false) (last : isBlank d = false) : trim text = text := by
  refine trim_eq_of_ends (fun c' mem => ?_) fun d' mem => ?_
  · obtain rfl := Option.some.inj (begins.symm.trans mem)
    exact first
  · obtain rfl := Option.some.inj (ends.symm.trans mem)
    exact last

end Sketch

end BasicSketch
