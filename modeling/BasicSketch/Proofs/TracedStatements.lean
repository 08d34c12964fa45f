import BasicSketch.Proofs.Tracing

set_option autoImplicit false

/-!
Statements keep every line traced: those that open and close procedures, an `Every` with the task it
writes aside, a single-line `If` with the code it collects, and so every list of statements.
-/

namespace BasicSketch

open Text SketchLine

namespace Sketch

section Procedures

variable {known : Statement → Prop} {s : Sketch}

structure Ended (known : Statement → Prop) (s s' : Sketch) : Prop where
  tracked : s'.Tracked known
  task : SameTask s s'
  scope : s'.scope = .global
  marked : ∀ scope ∈ s'.marked, scope ∈ s.marked ∨ scope = .procedure

theorem Tracked.finishProcedure (tracked : s.Tracked known) : s.finishProcedure.Tracked known := by
  unfold Sketch.finishProcedure
  split
  · exact tracked
  · rename_i p opened
    obtain ⟨procedures, signatures, events, eq, among, listed, -⟩ :=
      addProcedure_frame { s with open? := none } p
    have headed := tracked.opened p opened
    have traced := tracked.buffers .procedure
    rw [eq]
    refine ⟨fun b => ?_, by simp, fun q mem => ?_, fun t mem => ?_,
      ⟨tracked.notes.symbols, tracked.notes.includes, by simp⟩, tracked.captured⟩
    · cases b with
      | procedure => trivial
      | global => exact tracked.buffers .global
      | setup => exact tracked.buffers .setup
      | loop => exact tracked.buffers .loop
    · rcases among q mem with before | rfl
      · exact tracked.procedures q before
      · exact ⟨headed, tracked.notes.hoisted q opened, by simpa [buffer, opened] using traced⟩
    · rcases listed t mem with before | rfl
      · exact tracked.signatures t before
      · exact headed.signature

theorem SameTask.finishProcedure (s : Sketch) :
    SameTask s s.finishProcedure ∧ s.finishProcedure.marked = s.marked := by
  unfold Sketch.finishProcedure
  split
  · exact ⟨⟨rfl, rfl, rfl, fun _ => rfl⟩, rfl⟩
  · rename_i p opened
    obtain ⟨procedures, signatures, events, eq, -, -⟩ :=
      addProcedure_frame { s with open? := none } p
    rw [eq]
    exact ⟨⟨rfl, rfl, rfl, fun _ => rfl⟩, rfl⟩

theorem Tracked.endProcedure (tracked : s.Tracked known) (signed : s.Signed known)
    (linked : s.author.isSome = true → s.Linked .procedure) : Ended known s s.endProcedure := by
  unfold Sketch.endProcedure
  split
  · rename_i outside
    exact ⟨tracked.of_kept rfl, ⟨rfl, rfl, rfl, fun _ => rfl⟩, outside, fun _ => Or.inl⟩
  · obtain ⟨blocks, events, eq⟩ := dropBlocks_frame s "End Sub"
    rw [eq]
    exact ⟨tracked.of_kept rfl, ⟨rfl, rfl, rfl, fun _ => rfl⟩, rfl, fun _ => Or.inl⟩
  · obtain ⟨blocks, events, eq⟩ := dropBlocks_frame s "End Sub"
    rw [eq]
    exact ⟨tracked.of_kept rfl, ⟨rfl, rfl, rfl, fun _ => rfl⟩, rfl, fun _ => Or.inl⟩
  · obtain ⟨blocks, events, eq⟩ := dropBlocks_frame s "End"
    rw [eq]
    have dropped : { s with blocks, events }.Tracked known := tracked.of_kept rfl
    have pushed := dropped.push signed linked (IsCode.fixed rfl)
      (fun _ => rfl) false 0
    have task := SameTask.push { s with blocks, events } false .procedure 0 "\x7d"
    obtain ⟨finished, marked⟩ := SameTask.finishProcedure
      ({ s with blocks, events }.push false .procedure 0 "\x7d")
    have whole := task.trans finished
    refine ⟨pushed.finishProcedure.of_kept rfl,
      ⟨whole.author, whole.line, whole.capture, whole.marked⟩, rfl, fun scope mem => ?_⟩
    exact mem_marked_push (s := { s with blocks, events }) (marked ▸ mem)

theorem Tracked.leave (tracked : s.Tracked known) (signed : s.Signed known)
    (linked : s.author.isSome = true → s.Linked .procedure) (reason : String) :
    Ended known s (s.leave reason) := by
  unfold Sketch.leave
  split
  · rename_i outside
    exact ⟨tracked, ⟨rfl, rfl, rfl, fun _ => rfl⟩, by simpa using outside, fun _ => Or.inl⟩
  · have reported : (s.report (.unclosedProcedure s.line reason)).Tracked known :=
      tracked.of_kept rfl
    have ended := reported.endProcedure signed linked
    exact ⟨ended.tracked, ⟨ended.task.author, ended.task.line, ended.task.capture,
      ended.task.marked⟩, ended.scope, ended.marked⟩

variable {header signature : String}

theorem heads_pushed (marks : Marks known s.author s.line) (code : IsCode header) :
    ∀ l ∈ s.pushed false .procedure 0 header, l.Heads known := by
  intro l mem
  unfold pushed at mem
  split at mem
  · rw [List.mem_singleton.1 mem]
    exact code
  · simp only [List.mem_cons, List.not_mem_nil, or_false] at mem
    rcases mem with rfl | rfl
    · exact marks
    · exact code

theorem Tracked.opens (tracked : s.Tracked known) (code : IsCode signature) :
    { s with
      scope := .procedure
      localNames := []
      open? := some (⟨signature, [], [], []⟩ : Procedure) }.Tracked known where
  buffers b := by
    cases b with
    | procedure => trivial
    | global => exact tracked.buffers .global
    | setup => exact tracked.buffers .setup
    | loop => exact tracked.buffers .loop
  opened p mem := by
    obtain rfl := Option.some.inj mem
    exact ⟨code, by simp⟩
  procedures := tracked.procedures
  signatures := tracked.signatures
  notes := ⟨tracked.notes.symbols, tracked.notes.includes, fun p mem => by
    obtain rfl := Option.some.inj mem
    simp⟩
  captured := tracked.captured

theorem Tracked.head (tracked : s.Tracked known) (signed : s.Signed known)
    (opened : s.open? = some ⟨signature, [], [], []⟩) (code : IsCode header) :
    let s' := s.push false .procedure 0 header
    { s' with
      open? := s'.open?.map fun (p : Procedure) =>
        { p with header := p.body, body := [] } }.Tracked known := by
  intro s'
  have landing : s.landing .procedure = .procedure := by simp [Sketch.landing, opened]
  have buffers (b : Scope) (other : b ≠ .procedure) : s'.buffer b = s.buffer b := by
    cases capturing : s.capture with
    | some texts => exact buffer_push_captured _ _ _ _ _ (by simp [capturing]) b
    | none =>
      rw [buffer_push _ _ _ _ _ capturing, landing, if_neg other, List.append_nil]
  have body : ∀ l ∈ s'.buffer .procedure, l.Heads known := by
    have empty : s.buffer .procedure = [] := by simp [buffer, opened]
    cases capturing : s.capture with
    | some texts =>
      rw [buffer_push_captured _ _ _ _ _ (by simp [capturing]), empty]
      simp
    | none =>
      rw [buffer_push _ _ _ _ _ capturing, landing, if_pos rfl, empty]
      exact heads_pushed (signed capturing) code
  have heading : s'.open?.map Procedure.heading = some (signature, [], []) := by
    rw [push_heading, opened]
    rfl
  obtain ⟨q, written, eq⟩ := Option.map_eq_some_iff.1 heading
  obtain ⟨rfl, -, hoisted⟩ : q.signature = signature ∧ q.header = [] ∧ q.hoisted = [] := by
    simpa [Procedure.heading] using eq
  have headed : q.Headed known := headed_push tracked.opened false 0 q written
  refine ⟨fun b => ?_, fun p mem => ?_, by simpa [s'] using tracked.procedures,
    by simpa [s'] using tracked.signatures, ⟨by simpa [s'] using tracked.notes.symbols,
      by simpa [s'] using tracked.notes.includes, fun p mem => ?_⟩,
    captured_push tracked.captured code.flat false 0⟩
  · cases b with
    | procedure => simp [buffer, written, Traced]
    | global => exact buffers .global (by simp) ▸ tracked.buffers .global
    | setup => exact buffers .setup (by simp) ▸ tracked.buffers .setup
    | loop => exact buffers .loop (by simp) ▸ tracked.buffers .loop
  · obtain rfl : { q with header := q.body, body := [] } = p := by simpa [written] using mem
    exact ⟨headed.signature, by simpa [buffer, written] using body⟩
  · obtain rfl : { q with header := q.body, body := [] } = p := by simpa [written] using mem
    simp [hoisted]

theorem Tracked.enterProcedure (tracked : s.Tracked known) (signed : s.Signed known)
    (linked : s.author.isSome = true → s.Linked .procedure) (codeSignature : IsCode signature)
    (code : IsCode header) :
    (s.enterProcedure signature header).Tracked known ∧
      SameTask s (s.enterProcedure signature header) := by
  have left := tracked.leave signed linked "next procedure"
  have headed := (left.tracked.opens codeSignature).head (left.task.signed signed) rfl code
  have task : SameTask s { s.leave "next procedure" with
      scope := .procedure
      localNames := []
      open? := some (⟨signature, [], [], []⟩ : Procedure) } :=
    ⟨left.task.author, left.task.line, left.task.capture, left.task.marked⟩
  have whole := task.trans (SameTask.push _ false .procedure 0 header)
  exact ⟨headed, whole.author, whole.line, whole.capture, whole.marked⟩

theorem foldl_declare_frame {α : Type} (name : α → String) (names : List α) (s : Sketch) :
    ∃ globalNames localNames,
      names.foldl (fun s n => s.declare (name n)) s = { s with globalNames, localNames } := by
  induction names generalizing s with
  | nil => exact ⟨_, _, rfl⟩
  | cons first rest ih =>
    obtain ⟨globalNames, localNames, eq⟩ := declare_frame s (name first)
    obtain ⟨globalNames', localNames', eq'⟩ := ih (s.declare (name first))
    refine ⟨globalNames', localNames', ?_⟩
    rw [List.foldl_cons, eq', eq]

theorem works_parameterText (notes : s.FlatNotes) {p : Parameter} (clean : p.Clean) :
    Works s (s.parameterText p).2.2 ∧ Flat (s.parameterText p).1 ∧
      ∀ v ∈ (s.parameterText p).2.1, Flat v := by
  have type := (typeName_map_spelled clean.type).1
  have noted : Works s (if p.type.any TypeRef.pointer then s.addPointer p.name else s) := by
    split
    · exact .note (.of_names s (.of_eq rfl)) fun notes =>
        ⟨notes.symbols, notes.includes, notes.hoisted⟩
    · exact Works.refl s
  have notes' := noted.flatNotes notes
  unfold parameterText
  dsimp only
  refine ⟨noted, ?_, fun v value => ?_⟩
  · repeat' split
    all_goals
      simp only [toString_text, flat_append]
      simp only [type, clean.name, and_true, true_and]
      and_intros
    all_goals exact flat_text rfl
  · generalize (if p.type.any TypeRef.pointer then s.addPointer p.name else s) = s at *
    split at value
    · rename_i e given
      obtain rfl := Option.some.inj value
      exact notes'.value (clean.initial e given)
    · split at value
      · obtain rfl := Option.some.inj value
        exact flat_initialValue _
      · simp at value

theorem works_parameterTexts (notes : s.FlatNotes) {ps : List Parameter}
    (clean : ∀ p ∈ ps, p.Clean) :
    Works s (s.parameterTexts ps).2.2 ∧ (∀ t ∈ (s.parameterTexts ps).1, Flat t) ∧
      ∀ t ∈ (s.parameterTexts ps).2.1, Flat t := by
  induction ps generalizing s with
  | nil => exact ⟨Works.refl s, by simp [parameterTexts], by simp [parameterTexts]⟩
  | cons p rest ih =>
    obtain ⟨works, text, initial⟩ := works_parameterText notes (clean p List.mem_cons_self)
    obtain ⟨more, declared, defined⟩ := ih (works.flatNotes notes)
      fun p mem => clean p (List.mem_cons_of_mem _ mem)
    refine ⟨works.trans more, fun t mem => ?_, fun t mem => ?_⟩
    · rcases List.mem_cons.1 mem with rfl | later
      · split
        · rename_i value given
          simp only [flat_append]
          exact ⟨⟨text, flat_text rfl⟩, initial value given⟩
        · exact text
      · exact declared t later
    · rcases List.mem_cons.1 mem with rfl | later
      · exact text
      · exact defined t later

theorem Ready.declared (ready : s.Ready known) (codeSignature : IsCode signature)
    (code : IsCode header) (name : String) (ps : List Parameter) :
    let s' := ps.foldl (fun s p => s.declare p.name)
      ((s.enterProcedure signature header).declare name)
    s'.Tracked known ∧ SameTask s s' := by
  intro s'
  obtain ⟨entered, task⟩ :=
    ready.tracked.enterProcedure ready.signed (fun _ => ready.linked .procedure) codeSignature code
  obtain ⟨_, _, first⟩ := declare_frame (s.enterProcedure signature header) name
  obtain ⟨_, _, all⟩ := foldl_declare_frame Parameter.name ps
    ((s.enterProcedure signature header).declare name)
  simp only [s', all, first]
  exact ⟨entered.of_kept rfl, task.author, task.line, task.capture, task.marked⟩

variable {h : ProcedureHeader} {body : Sketch → Sketch}

theorem Ready.openProcedure (ready : s.Ready known) (clean : h.Clean) :
    (s.openProcedure h).Tracked known ∧ SameTask s (s.openProcedure h) := by
  obtain ⟨works, declared, defined⟩ := works_parameterTexts ready.tracked.notes clean.parameters
  obtain ⟨now, task⟩ := ready.works works
  have opened {result : String} (code : IsCode result) := by
    have head := (code.append (flat_text rfl : Flat " ")).append clean.name
    exact now.declared (isCode_called head declared)
      ((isCode_call head defined).append (flat_text rfl : Flat " \x7b"))
      h.name h.parameters
  unfold Sketch.openProcedure
  cases h.kind with
  | sub => exact (opened (IsCode.fixed rfl)).imp_right task.trans
  | function =>
    obtain ⟨flatType, leads⟩ := typeText_spelled clean.result
    exact (opened (IsCode.of_leads flatType leads.1)).imp_right task.trans

theorem Ready.procedureStart (ready : s.Ready known) (clean : h.Clean) :
    (s.procedureStart h).Tracked known ∧ SameTask s (s.procedureStart h) := by
  have routine (scope : Scope) :
      (s.enterRoutine scope).Tracked known ∧ SameTask s (s.enterRoutine scope) := by
    have left := ready.tracked.leave ready.signed
      (fun _ => ready.linked .procedure) "next procedure"
    exact ⟨left.tracked.of_kept rfl, left.task.author, left.task.line, left.task.capture,
      left.task.marked⟩
  unfold Sketch.procedureStart
  split
  · exact routine .setup
  · split
    · exact routine .loop
    · exact ready.openProcedure clean

structure ReadyAt (known : Statement → Prop) (s : Sketch) (scope : Scope) : Prop where
  tracked : s.Tracked known
  signed : s.Signed known
  authored : s.author.isSome = true
  linked : s.Linked scope

theorem ReadyAt.emitLoop (ready : s.ReadyAt known .loop) (extra : Nat) {text : String}
    (code : IsCode text) :
    (s.emitLoop extra text).ReadyAt known .loop ∧ SameTask s (s.emitLoop extra text) := by
  have task := SameTask.push s false .loop (1 + extra) text
  refine ⟨⟨?_, task.signed ready.signed, task.author ▸ ready.authored,
    ready.linked.push false .loop (1 + extra) text⟩, task⟩
  exact ready.tracked.push ready.signed (fun _ => ready.linked) code
    (fun nobody => absurd ready.authored (by simp [nobody])) false (1 + extra)

theorem Tracked.outside (tracked : s.Tracked known) :
    { s with scope := .global, blocks := [], open? := none, localNames := [] }.Tracked known where
  buffers b := by
    cases b with
    | procedure => trivial
    | global => exact tracked.buffers .global
    | setup => exact tracked.buffers .setup
    | loop => exact tracked.buffers .loop
  opened := by simp
  procedures := tracked.procedures
  signatures := tracked.signatures
  notes := ⟨tracked.notes.symbols, tracked.notes.includes, by simp⟩
  captured := tracked.captured

theorem Tracked.resume {t : Sketch} (tracked : t.Tracked known) (before : s.Tracked known) :
    { t with
      scope := s.scope, blocks := s.blocks, open? := s.open?, localNames := s.localNames }.Tracked
        known where
  buffers b := by
    cases b with
    | procedure => exact before.buffers .procedure
    | global => exact tracked.buffers .global
    | setup => exact tracked.buffers .setup
    | loop => exact tracked.buffers .loop
  opened := before.opened
  procedures := tracked.procedures
  signatures := tracked.signatures
  notes := ⟨tracked.notes.symbols, tracked.notes.includes, before.notes.hoisted⟩
  captured := tracked.captured

structure Runs (known : Statement → Prop) (s s' : Sketch) : Prop where
  tracked : s'.Tracked known
  author : s'.author = s.author
  capture : s'.capture.isSome = s.capture.isSome

theorem Ready.aside (ready : s.Ready known) (free : .procedure ∉ s.marked)
    (codeSignature : IsCode signature) (code : IsCode header) {opened : Nat}
    (here : opened = s.line)
    (runs : ∀ t : Sketch, t.Tracked known → t.author = s.author →
      t.capture.isSome = s.capture.isSome → Runs known t (body t)) :
    let s' := s.aside fun t =>
      ((body (t.enterProcedure signature header)).start opened).endProcedure
    s'.ReadyAt known .loop ∧ s'.author = s.author ∧ s'.line = s.line ∧
      s'.capture.isSome = s.capture.isSome ∧ (s.capture.isSome = true → s'.marked = []) := by
  intro s'
  obtain ⟨entered, task⟩ := ready.tracked.outside.enterProcedure ready.signed
    (fun _ mem => absurd mem free) codeSignature code
  have ran := runs _ entered task.author task.capture
  generalize eq : (body (Sketch.enterProcedure { s with
    scope := .global, blocks := [], open? := none, localNames := [] } signature header)).start
      opened = t
  have tracked : t.Tracked known := eq ▸ ran.tracked.of_kept rfl
  have author : t.author = s.author := by
    rw [← eq]
    exact ran.author.trans task.author
  have line : t.line = s.line := by rw [← eq]; exact here
  have marked : t.marked = [] := by rw [← eq]; rfl
  have capture : t.capture.isSome = s.capture.isSome := by
    rw [← eq]
    exact ran.capture.trans task.capture
  have signed : t.Signed known :=
    ready.signed.of_eq author line capture
  have ended := tracked.endProcedure signed (fun _ mem => absurd mem (by simp [marked]))
  have resumed : s' = { t.endProcedure with
      scope := s.scope, blocks := s.blocks, open? := s.open?, localNames := s.localNames } := by
    simp only [s', Sketch.aside, eq]
    rw [leave_of_global ended.scope]
  rw [resumed]
  refine ⟨⟨ended.tracked.resume ready.tracked, ended.task.signed signed, ?_, fun mem => ?_⟩,
    ended.task.author.trans author, ended.task.line.trans line, ended.task.capture.trans capture,
    fun active => (ended.task.marked (capture.trans active)).trans marked⟩
  · exact (ended.task.author.trans author) ▸ ready.authored
  · -- The marker of the task's end is in the procedure only.
    rcases ended.marked .loop mem with before | same
    · simp [marked] at before
    · simp at same

theorem Ready.emitEvery (ready : s.Ready known) (fresh : s.marked = []) {interval : Expr}
    (clean : interval.Clean)
    (runs : ∀ t : Sketch, t.Tracked known → t.author = s.author →
      t.capture.isSome = s.capture.isSome → Runs known t (body t)) :
    (s.emitEvery interval body).Tracked known ∧ SameTask s (s.emitEvery interval body) := by
  have codeTask : IsCode s!"_every_task_{s.everyCount + 1}" :=
    IsCode.lead (flat_nat _) rfl
  have codeLast : IsCode s!"_every_last_{s.everyCount + 1}" :=
    IsCode.lead (flat_nat _) rfl
  have flatInterval := ready.tracked.notes.value clean
  unfold Sketch.emitEvery
  dsimp only
  generalize s!"_every_task_{s.everyCount + 1}" = task at *
  generalize s!"_every_last_{s.everyCount + 1}" = last at *
  have counted : Works s { s with everyCount := s.everyCount + 1 } :=
    .note (.of_names s (.of_eq rfl)) fun notes => ⟨notes.symbols, notes.includes, notes.hoisted⟩
  have declared : IsCode s!"unsigned long {last} = 0;" :=
    IsCode.around codeLast.flat rfl rfl
  obtain ⟨ready₁, task₁⟩ := ready.works (counted.trans (.push _ false .global 0 declared))
  have free : .procedure ∉ ({ s with everyCount := s.everyCount + 1 }.emitGlobal
      s!"unsigned long {last} = 0;").marked := by
    intro mem
    rcases mem_marked_push mem with before | same
    · exact absurd (show Scope.procedure ∈ s.marked from before) (by simp [fresh])
    · simp at same
  have codeSignature : IsCode s!"void {task}();" :=
    IsCode.around codeTask.flat rfl rfl
  have codeHeader : IsCode s!"void {task}() \x7b" :=
    IsCode.around codeTask.flat rfl rfl
  obtain ⟨ready₂, author, line, capture, marked⟩ :=
    ready₁.aside free codeSignature codeHeader task₁.line.symm
      fun t tracked sameAuthor sameCapture =>
        runs t tracked (sameAuthor.trans task₁.author) (sameCapture.trans task₁.capture)
  have test : IsCode s!"if (millis() - {last} >= {s.value interval}) \x7b" := by
    simp only [toString_text, String.append_assoc]
    refine IsCode.lead ?_ rfl
    simp only [flat_append]
    exact ⟨codeLast.flat, flat_text rfl, flatInterval, flat_text rfl⟩
  obtain ⟨ready₃, task₃⟩ := ready₂.emitLoop 0 test
  obtain ⟨ready₄, task₄⟩ := ready₃.emitLoop 1
    (codeLast.append (flat_text rfl) : IsCode s!"{last} = millis();")
  obtain ⟨ready₅, task₅⟩ := ready₄.emitLoop 1
    (codeTask.append (flat_text rfl) : IsCode s!"{task}();")
  obtain ⟨ready₆, task₆⟩ := ready₅.emitLoop 0
    (IsCode.fixed rfl : IsCode "\x7d")
  have rest := (task₃.trans task₄).trans (task₅.trans task₆)
  refine ⟨ready₆.tracked, rest.author.trans (author.trans task₁.author),
    rest.line.trans (line.trans task₁.line), rest.capture.trans (capture.trans task₁.capture),
    fun active => ?_⟩
  have still := task₁.capture.trans active
  exact (rest.marked (capture.trans still)).trans ((marked still).trans fresh.symm)

theorem Tracked.capturing (tracked : s.Tracked known) {capture : Option (List String)}
    (flat : ∀ texts ∈ capture, ∀ t ∈ texts, Flat t) : { s with capture }.Tracked known where
  buffers b := by
    have traced := tracked.buffers b
    cases b <;> exact traced
  opened := tracked.opened
  procedures := tracked.procedures
  signatures := tracked.signatures
  notes := ⟨tracked.notes.symbols, tracked.notes.includes, tracked.notes.hoisted⟩
  captured := flat

theorem Ready.captured (ready : s.Ready known) (fresh : s.marked = []) {write : Sketch → Sketch}
    (writes : ∀ t : Sketch, t.Ready known → t.marked = [] → t.capture.isSome = true →
      (write t).Tracked known ∧ SameTask t (write t)) :
    Flat (s.captured write).1 ∧ (s.captured write).2.Ready known ∧
      (s.captured write).2.marked = [] ∧ SameTask s (s.captured write).2 := by
  have begun : { s with capture := some [] }.Tracked known := ready.tracked.capturing (by simp)
  obtain ⟨tracked, task⟩ := writes { s with capture := some [] }
    ⟨begun, fun writing => by simp at writing, ready.authored, fun scope mem =>
      absurd (show scope ∈ s.marked from mem) (by simp [fresh])⟩ fresh rfl
  have marked : (write { s with capture := some [] }).marked = [] := (task.marked rfl).trans fresh
  have same : SameTask s (s.captured write).2 :=
    ⟨task.author, task.line, rfl, fun _ => task.marked rfl⟩
  refine ⟨flat_intercalate (flat_text rfl) fun t mem => ?_,
    ⟨tracked.capturing ready.tracked.captured, same.signed ready.signed,
      same.author ▸ ready.authored, fun scope mem => ?_⟩, marked, same⟩
  · obtain ⟨texts, collected⟩ := Option.isSome_iff_exists.1 (task.capture.trans rfl)
    rw [collected] at mem
    exact tracked.captured texts collected t mem
  · exact absurd (show scope ∈ (write { s with capture := some [] }).marked from mem)
      (by simp [marked])

end Procedures

section Statements

variable {known : Statement → Prop} {s : Sketch}

theorem Ready.perform (ready : s.Ready known) {a : Action} (clean : a.Clean) :
    (s.perform a).Tracked known ∧ SameTask s (s.perform a) := by
  by_cases begins : ∃ h, a = .procedureStart h
  · obtain ⟨h, rfl⟩ := begins
    exact ready.procedureStart clean
  by_cases ends : ∃ kind, a = .procedureEnd kind
  · obtain ⟨kind, rfl⟩ := ends
    have ended := ready.tracked.endProcedure ready.signed (fun _ => ready.linked .procedure)
    exact ⟨ended.tracked, ended.task⟩
  have works : Works s (s.perform a) := Works.perform ready.tracked.notes clean
    (fun h same => begins ⟨h, same⟩) (fun kind same => ends ⟨kind, same⟩)
  obtain ⟨after, task⟩ := ready.works works
  exact ⟨after.tracked, task⟩

variable {c : Expr} {first : Sketch → Sketch}

theorem Ready.inlineIf (ready : s.Ready known) (fresh : s.marked = []) (clean : c.Clean)
    (writes : ∀ t : Sketch, t.Ready known → t.marked = [] → t.capture.isSome = true →
      (first t).Tracked known ∧ SameTask t (first t)) :
    let s' := (s.captured first).2.emit
      s!"if ({s.condition c}) \x7b {(s.captured first).1} \x7d"
    s'.Tracked known ∧ SameTask s s' := by
  intro s'
  obtain ⟨flat, after, -, task⟩ := ready.captured fresh writes
  have code : IsCode s!"if ({s.condition c}) \x7b {(s.captured first).1} \x7d" := by
    simp only [toString_text, String.append_assoc]
    refine IsCode.lead ?_ rfl
    simp only [flat_append]
    exact ⟨ready.tracked.notes.condition clean, flat_text rfl, flat,
      flat_text rfl⟩
  obtain ⟨written, task'⟩ := after.works (Works.emit _ code)
  exact ⟨written.tracked, task.trans task'⟩

theorem Ready.inlineIfElse (ready : s.Ready known) (fresh : s.marked = []) (clean : c.Clean)
    {second : Sketch → Sketch}
    (writes : ∀ t : Sketch, t.Ready known → t.marked = [] → t.capture.isSome = true →
      (first t).Tracked known ∧ SameTask t (first t))
    (writes' : ∀ t : Sketch, t.Ready known → t.marked = [] → t.capture.isSome = true →
      (second t).Tracked known ∧ SameTask t (second t)) :
    let t := (s.captured first).2
    let s' := (t.captured second).2.emit s!"if ({s.condition c}) \x7b {
      (s.captured first).1} \x7d else \x7b {(t.captured second).1} \x7d"
    s'.Tracked known ∧ SameTask s s' := by
  intro t s'
  obtain ⟨flat, between, fresh', task⟩ := ready.captured fresh writes
  obtain ⟨flat', after, -, task'⟩ := between.captured fresh' writes'
  have code : IsCode s!"if ({s.condition c}) \x7b {
      (s.captured first).1} \x7d else \x7b {(t.captured second).1} \x7d" := by
    simp only [toString_text, String.append_assoc]
    refine IsCode.lead ?_ rfl
    simp only [flat_append]
    exact ⟨ready.tracked.notes.condition clean, flat_text rfl, flat,
      flat_text rfl, flat', flat_text rfl⟩
  obtain ⟨written, task''⟩ := after.works (Works.emit _ code)
  exact ⟨written.tracked, (task.trans task').trans task''⟩

mutual

theorem place_tracked (short : ∀ st, known st → st.line ≤ maxLong) :
    ∀ (st : Statement) (s : Sketch), s.Ready known → s.marked = [] → st.Clean →
      (s.capture = none → ∀ other ∈ st.inside, known other) →
      (s.place st).Tracked known ∧ SameTask s (s.place st)
  | .plain _ a, s, ready, _, clean, _ => ready.perform clean
  | .inlineIf _ c thenBranch, s, ready, fresh, clean, _ =>
    ready.inlineIf fresh clean.1 fun t readyT freshT active =>
      place_tracked short thenBranch t readyT freshT clean.2 fun writing => by
        simp [writing] at active
  | .inlineIfElse _ c thenBranch elseBranch, s, ready, fresh, clean, _ =>
    ready.inlineIfElse fresh clean.1
      (fun t readyT freshT active => place_tracked short thenBranch t readyT freshT clean.2.1
        fun writing => by simp [writing] at active)
      (fun t readyT freshT active => place_tracked short elseBranch t readyT freshT clean.2.2
        fun writing => by simp [writing] at active)
  | .every _ interval body, s, ready, fresh, clean, listed =>
    ready.emitEvery fresh clean.1 fun t tracked _ capture =>
      (statements_tracked short body t tracked clean.2 fun writing =>
        listed (by simpa [writing] using capture)).1

theorem statements_tracked (short : ∀ st, known st → st.line ≤ maxLong) :
    ∀ (sts : List Statement) (s : Sketch), s.Tracked known → Statement.AllClean sts →
      (s.capture = none → ∀ st ∈ Statement.listing sts, known st) →
      Runs known s (s.statements sts) ∧
        (s.capture = none → s.line ≤ maxLong → (s.statements sts).line ≤ maxLong)
  | [], s, tracked, _, _ => ⟨⟨tracked, rfl, rfl⟩, fun _ bound => bound⟩
  | first :: rest, s, tracked, clean, listed => by
    have known_first (writing : s.capture = none) : known first :=
      listed writing first List.mem_cons_self
    have ready : ({ s with author := some first }.start first.line).Ready known := by
      refine ⟨tracked.of_kept rfl, fun writing => ⟨short first (known_first writing), ?_⟩, rfl,
        fun scope mem => absurd mem List.not_mem_nil⟩
      intro st author
      obtain rfl := Option.some.inj author
      exact ⟨known_first writing, rfl⟩
    obtain ⟨placed, task⟩ := place_tracked short first _ ready rfl clean.1
      fun writing other mem => listed writing other
        (List.mem_cons_of_mem _ (List.mem_append_left _ mem))
    have after : (s.writeFor first fun s => (s.start first.line).place first).Tracked known :=
      placed.of_kept rfl
    obtain ⟨runs, bound⟩ := statements_tracked short rest _ after clean.2
      fun writing st mem => listed (task.capture_eq_none.1 writing) st
        (List.mem_cons_of_mem _ (List.mem_append_right _ mem))
    refine ⟨⟨runs.tracked, runs.author, runs.capture.trans task.capture⟩, fun writing _ => ?_⟩
    exact bound (task.capture_eq_none.2 writing) (task.line ▸ short first (known_first writing))

end

theorem tracked_empty (options : Options) : (empty options).Tracked known where
  buffers b := by cases b <;> trivial
  opened := by simp [empty]
  procedures := by simp [empty]
  signatures := by simp [empty]
  notes := ⟨by simp [Symbols.Flat, empty], by simp [empty], by simp [empty]⟩
  captured := by simp [empty]

theorem tracked_ofStatements (options : Options) {sts : List Statement}
    (clean : Statement.AllClean sts) (listed : ∀ st ∈ Statement.listing sts, known st)
    (short : ∀ st, known st → st.line ≤ maxLong) : (ofStatements options sts).Tracked known := by
  obtain ⟨runs, bound⟩ := statements_tracked short sts (empty options) (tracked_empty options) clean
    fun _ => listed
  have nobody : ((empty options).statements sts).author = none := runs.author
  have signed : ((empty options).statements sts).Signed known := fun _ =>
    ⟨bound rfl (Nat.zero_le _), by simp [nobody]⟩
  have left := runs.tracked.leave signed (by simp [nobody]) "end of input"
  obtain ⟨blocks, events, eq⟩ := dropBlocks_frame
    (((empty options).statements sts).leave "end of input") "end of input"
  rw [ofStatements, finish, eq]
  exact left.tracked.of_kept rfl

end Statements

end Sketch

end BasicSketch
