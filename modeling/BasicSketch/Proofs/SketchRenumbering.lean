import BasicSketch.Proofs.SideBySide

set_option autoImplicit false

/-! Line numbers in the writing of a sketch. -/

namespace BasicSketch

variable (f : Nat → Nat)

def Origin.renumber (o : Origin) : Origin :=
  { o with author := o.author.map (Statement.renumber f) }

def SketchLine.renumber : SketchLine → SketchLine
  | .marker origin depth source => .marker (origin.renumber f) depth (f source)
  | .code origin depth text => .code (origin.renumber f) depth text

def Procedure.renumber (p : Procedure) : Procedure :=
  { p with header := p.header.map (.renumber f), body := p.body.map (.renumber f) }

namespace Sketch

def renumber (s : Sketch) : Sketch :=
  { s with
    globals := s.globals.map (.renumber f)
    setup := s.setup.map (.renumber f)
    loop := s.loop.map (.renumber f)
    procedures := s.procedures.map (.renumber f)
    open? := s.open?.map (.renumber f)
    author := s.author.map (Statement.renumber f)
    line := f s.line
    events := s.events.map (.renumber f) }

variable (s : Sketch)

theorem report_renumber (e : Event) :
    (s.renumber f).report (e.renumber f) = (s.report e).renumber f := by
  simp [report, renumber]

theorem append_renumber (scope : Scope) (lines : List SketchLine) :
    (s.renumber f).append scope (lines.map (.renumber f)) = (s.append scope lines).renumber f := by
  cases opened : s.open? <;> cases scope <;>
    simp [append, renumber, Procedure.renumber, opened]

theorem push_renumber (inPlace : Bool) (scope : Scope) (depth : Nat) (text : String) :
    (s.renumber f).push inPlace scope depth text =
      (s.push inPlace scope depth text).renumber f := by
  have same : (s.renumber f).capture = s.capture := rfl
  unfold push
  rw [same]
  split
  · rfl
  · have again : (s.renumber f).marked = s.marked := rfl
    simp only [again]
    split
    · exact append_renumber f s scope [.code ⟨s.author, inPlace⟩ depth text]
    · exact append_renumber f { s with marked := s.marked ++ [scope] } scope
        [.marker ⟨s.author, inPlace⟩ depth s.line, .code ⟨s.author, inPlace⟩ depth text]

theorem addProcedure_renumber (p : Procedure) :
    (s.renumber f).addProcedure (p.renumber f) = (s.addProcedure p).renumber f := by
  have again : (s.renumber f).procedures.any (·.signature == p.signature) =
      s.procedures.any (·.signature == p.signature) := by
    simp [renumber, Procedure.renumber, Function.comp_def]
  have others : (s.procedures.map (Procedure.renumber f)).filter (·.signature != p.signature) =
      (s.procedures.filter (·.signature != p.signature)).map (Procedure.renumber f) := by
    rw [List.filter_map]
    rfl
  unfold addProcedure
  rw [show (p.renumber f).signature = p.signature from rfl, again]
  split
  · simp [renumber, report, Event.renumber, others]
  · simp [renumber]

theorem finishProcedure_renumber :
    (s.renumber f).finishProcedure = s.finishProcedure.renumber f := by
  unfold finishProcedure
  cases opened : s.open? with
  | none => simp [renumber, opened]
  | some p =>
    have noted := addProcedure_renumber f { s with open? := none } p
    simp only [renumber, opened, Option.map_some, Option.map_none] at noted ⊢
    exact noted

theorem head_renumber : (s.renumber f).head = s.head.renumber f := by
  cases opened : s.open? <;> simp [head, renumber, Procedure.renumber, opened]

theorem captured_renumber {write write' : Sketch → Sketch}
    (same : write' ({ s with capture := some [] }.renumber f) =
      (write { s with capture := some [] }).renumber f) :
    (s.renumber f).captured write' =
      ((s.captured write).1, (s.captured write).2.renumber f) := by
  unfold captured
  dsimp only
  rw [show { s.renumber f with capture := some [] } =
    ({ s with capture := some [] } : Sketch).renumber f from rfl, same]
  rfl

theorem sideBySide_renumber :
    SideBySide f (fun s c => c = s.renumber f) fun _ _ s c => c = s.renumber f where
  agree same := same
  trans _ same := same
  basis := by
    rintro s _ rfl
    simp [basis, renumber, Function.comp_def]
  note := by
    rintro s _ rfl
    intros
    rfl
  report := by
    rintro s _ rfl e natural
    rw [← report_renumber, natural]
    rfl
  push := by
    rintro s _ rfl
    exact push_renumber f s
  hoisting := by
    rintro s _ rfl name
    cases opened : s.open? <;> simp [hoisting, renumber, Procedure.renumber, opened]
  finish := by
    rintro s _ rfl
    exact finishProcedure_renumber f s
  enter := by
    rintro s _ rfl signature header
    rw [show (s.renumber f).begin signature = (s.begin signature).renumber f from rfl,
      push_renumber, head_renumber]
  suspend := by
    rintro s _ rfl
    rfl
  resume := by
    rintro s _ t _ rfl rfl
    rfl
  captured := by
    rintro s _ write write' rfl same
    rw [captured_renumber f s (same _ _ rfl)]
    exact ⟨rfl, rfl⟩
  start := by
    rintro s _ rfl n
    rfl
  again := by
    rintro s _ t _ rfl rfl
    rfl
  writeFor := by
    rintro s _ write write' rfl st same
    have written := same { s with author := some st } _ rfl
    unfold writeFor
    exact congrArg (fun t => { t with author := s.author.map (Statement.renumber f) }) written

theorem ofStatements_renumber {f : Nat → Nat} (begins : f 0 = 0) (options : Options)
    (sts : List Statement) :
    ofStatements options (sts.map (Statement.renumber f)) =
      (ofStatements options sts).renumber f := by
  have blank : empty options = (empty options).renumber f := by simp [renumber, empty, begins]
  rw [ofStatements, ofStatements, ← Statement.renumberAll_eq]
  have written := (sideBySide_renumber f).statements sts _ _ blank
  exact (sideBySide_renumber f).finished written

end Sketch

end BasicSketch
