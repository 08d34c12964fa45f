import BasicSketch.Proofs.BlockDiscipline

set_option autoImplicit false

/-! The moments of writing. -/

namespace BasicSketch

/-- Where a statement stands. A body has the number of bodies that had begun when it began. -/
structure Home where
  scope : Scope
  number : Nat
  deriving DecidableEq, Repr

def Home.outside : Home := ⟨.global, 0⟩

structure Position where
  home : Home
  begun : Nat

namespace Position

def start : Position := ⟨.outside, 0⟩

def enter (p : Position) (scope : Scope) : Position := ⟨⟨scope, p.begun + 1⟩, p.begun + 1⟩

def leave (p : Position) : Position := { p with home := .outside }

end Position

def ProcedureHeader.scope (h : ProcedureHeader) : Scope :=
  if h.isSetup then .setup else if h.isLoop then .loop else .procedure

def Action.moves (p : Position) : Action → Position
  | .procedureStart h => p.enter h.scope
  | .procedureEnd _ => p.leave
  | _ => p

mutual

/-- The place behind a statement. Behind an `Every` the body around it goes on. -/
def Statement.moves (p : Position) : Statement → Position
  | .plain _ action => action.moves p
  | .inlineIf _ _ thenBranch => thenBranch.moves p
  | .inlineIfElse _ _ thenBranch elseBranch => elseBranch.moves (thenBranch.moves p)
  | .every _ _ body => { p with begun := (Statement.movesAll (p.enter .procedure) body).begun }

def Statement.movesAll (p : Position) : List Statement → Position
  | [] => p
  | first :: rest => Statement.movesAll (first.moves p) rest

end

inductive Deed where
  | statement (st : Statement)
  | declares (isStatic : Bool) (d : Declaration)
  | takes (inside : Home) (p : Parameter)
  | supplies (p : Parameter)

structure Moment where
  home : Home
  sketch : Sketch
  deed : Deed

namespace Sketch

def declarationMoments (home : Home) (isStatic : Bool) (s : Sketch) : List Declaration → List Moment
  | [] => []
  | d :: rest =>
    ⟨home, s, .declares isStatic d⟩ ::
      declarationMoments home isStatic (s.emitDeclaration isStatic d) rest

def parameterMoments (home inside : Home) (s : Sketch) : List Parameter → List Moment
  | [] => []
  | p :: rest =>
    let s' := (s.parameterText p).2.2
    ⟨home, s, .takes inside p⟩ :: ⟨home, s', .supplies p⟩ :: parameterMoments home inside s' rest

def actionMoments (s : Sketch) (p : Position) : Action → List Moment
  | .dim ds => declarationMoments p.home false s ds
  | .static ds => declarationMoments p.home true s ds
  | .procedureStart h =>
    if h.scope = .procedure then parameterMoments p.home (p.enter .procedure).home s h.parameters
    else []
  | _ => []

/-! The two parts of an `Every`: all before its body, and all behind it. -/

def announce (s : Sketch) : Sketch :=
  let id := s.everyCount + 1
  { s with everyCount := id }.emitGlobal s!"unsigned long _every_last_{id} = 0;"

def suspend (s : Sketch) : Sketch :=
  { s with scope := .global, blocks := [], open? := none, localNames := [] }

/-- The sketch on which the body of an `Every` begins. -/
def task (s : Sketch) : Sketch :=
  let id := s.everyCount + 1
  s.announce.suspend.enterProcedure s!"void _every_task_{id}();" s!"void _every_task_{id}() \x7b"

def resume (s before : Sketch) : Sketch :=
  { s with
    scope := before.scope
    blocks := before.blocks
    open? := before.open?
    localNames := before.localNames }

def poll (s : Sketch) (id : Nat) (interval : String) : Sketch :=
  (((s.emitLoop 0 s!"if (millis() - _every_last_{id} >= {interval}) \x7b").emitLoop 1
    s!"_every_last_{id} = millis();").emitLoop 1 s!"_every_task_{id}();").emitLoop 0 "\x7d"

theorem emitEvery_eq (s : Sketch) (interval : Expr) (body : Sketch → Sketch) :
    s.emitEvery interval body =
      (((((body s.task).start s.line).endProcedure.leave "end of Every block").resume
        s.announce).poll (s.everyCount + 1) (s.value interval)) := rfl

mutual

def moments (s : Sketch) (p : Position) : Statement → List Moment
  | .plain n action => ⟨p.home, s, .statement (.plain n action)⟩ :: s.actionMoments p action
  | .inlineIf n c thenBranch =>
    ⟨p.home, s, .statement (.inlineIf n c thenBranch)⟩ ::
      moments { s with capture := some [] } p thenBranch
  | .inlineIfElse n c thenBranch elseBranch =>
    ⟨p.home, s, .statement (.inlineIfElse n c thenBranch elseBranch)⟩ ::
      (moments { s with capture := some [] } p thenBranch ++
        moments { (s.captured fun s => s.place thenBranch).2 with capture := some [] }
          (thenBranch.moves p) elseBranch)
  | .every n interval body =>
    ⟨p.home, s, .statement (.every n interval body)⟩ ::
      allMoments s.task (p.enter .procedure) body

def allMoments (s : Sketch) (p : Position) : List Statement → List Moment
  | [] => []
  | first :: rest =>
    moments (s.facing first) p first ++ allMoments (s.statements [first]) (first.moves p) rest

end

def momentsOf (options : Options) (sts : List Statement) : List Moment :=
  (empty options).allMoments .start sts

/-- The open procedure with its end, as it is finished here. -/
def ended (s : Sketch) (p : Position) : List (Nat × Procedure) :=
  if s.scope = .procedure then
    ((s.push false .procedure 0 "\x7d").open?.map (p.home.number, ·)).toList
  else []

mutual

/-- The procedures that a statement finishes, by the numbers of their bodies. -/
def finishes (s : Sketch) (p : Position) : Statement → List (Nat × Procedure)
  | .plain _ (.procedureStart _) | .plain _ (.procedureEnd _) => s.ended p
  | .plain .. => []
  | .inlineIf _ _ thenBranch => finishes { s with capture := some [] } p thenBranch
  | .inlineIfElse _ _ thenBranch elseBranch =>
    finishes { s with capture := some [] } p thenBranch ++
      finishes { (s.captured fun s => s.place thenBranch).2 with capture := some [] }
        (thenBranch.moves p) elseBranch
  | .every _ _ body =>
    allFinishes s.task (p.enter .procedure) body ++
      ((s.task.statements body).start s.line).ended (Statement.movesAll (p.enter .procedure) body)

def allFinishes (s : Sketch) (p : Position) : List Statement → List (Nat × Procedure)
  | [] => []
  | first :: rest =>
    finishes (s.facing first) p first ++ allFinishes (s.statements [first]) (first.moves p) rest

end

def finished (options : Options) (sts : List Statement) : List (Nat × Procedure) :=
  (empty options).allFinishes .start sts ++
    ((empty options).statements sts).ended (Statement.movesAll .start sts)

theorem exists_moment {options : Options} {sts : List Statement} {P : List Moment → Moment → Prop}
    [∀ earlier m, Decidable (P earlier m)] (k : Nat)
    (holds : (momentsOf options sts)[k]?.any
      (fun m => decide (P ((momentsOf options sts).take k) m)) = true) :
    ∃ earlier m later, momentsOf options sts = earlier ++ m :: later ∧ P earlier m := by
  cases found : (momentsOf options sts)[k]? with
  | none => simp [found] at holds
  | some m =>
    obtain ⟨inRange, rfl⟩ := List.getElem?_eq_some_iff.1 found
    refine ⟨_, _, (momentsOf options sts).drop (k + 1), ?_, by simpa [found] using holds⟩
    rw [← List.drop_eq_getElem_cons, List.take_append_drop]

end Sketch

def Moment.statement? (m : Moment) : Option Statement :=
  match m.deed with
  | .statement st => some st
  | _ => none

def Moment.plain? (m : Moment) : Option (Nat × Action) :=
  match m.deed with
  | .statement (.plain n action) => some (n, action)
  | _ => none

theorem Moment.deed_of_plain? {m : Moment} {n : Nat} {a : Action} (found : m.plain? = some (n, a)) :
    m.deed = .statement (.plain n a) := by
  unfold plain? at found
  split at found
  · cases found
    assumption
  · cases found

mutual

def Statement.parts : Statement → List Statement
  | .plain n action => [.plain n action]
  | .inlineIf n c thenBranch => .inlineIf n c thenBranch :: thenBranch.parts
  | .inlineIfElse n c thenBranch elseBranch =>
    .inlineIfElse n c thenBranch elseBranch :: (thenBranch.parts ++ elseBranch.parts)
  | .every n interval body => .every n interval body :: Statement.allParts body

def Statement.allParts : List Statement → List Statement
  | [] => []
  | first :: rest => first.parts ++ Statement.allParts rest

end

namespace Sketch

theorem statement?_declarationMoments (home : Home) (isStatic : Bool) (ds : List Declaration) :
    ∀ s, (declarationMoments home isStatic s ds).filterMap Moment.statement? = [] := by
  induction ds with
  | nil => exact fun _ => rfl
  | cons d rest ih => exact fun s => ih (s.emitDeclaration isStatic d)

theorem statement?_parameterMoments (home inside : Home) (ps : List Parameter) :
    ∀ s, (parameterMoments home inside s ps).filterMap Moment.statement? = [] := by
  induction ps with
  | nil => exact fun _ => rfl
  | cons p rest ih => exact fun s => ih (s.parameterText p).2.2

theorem statement?_actionMoments (s : Sketch) (p : Position) (a : Action) :
    (s.actionMoments p a).filterMap Moment.statement? = [] := by
  cases a with
  | dim ds => exact statement?_declarationMoments p.home false ds s
  | static ds => exact statement?_declarationMoments p.home true ds s
  | procedureStart h =>
    rw [actionMoments]
    split
    · exact statement?_parameterMoments _ _ _ _
    · rfl
  | _ => rfl

mutual

theorem statement?_moments : (st : Statement) → (s : Sketch) → (p : Position) →
    (s.moments p st).filterMap Moment.statement? = st.parts
  | .plain n a, s, p => congrArg (Statement.plain n a :: ·) (statement?_actionMoments s p a)
  | .inlineIf n c thenBranch, s, p =>
    congrArg (Statement.inlineIf n c thenBranch :: ·) (statement?_moments thenBranch _ p)
  | .inlineIfElse n c thenBranch elseBranch, s, p => by
    rw [moments, Statement.parts]
    refine congrArg (Statement.inlineIfElse n c thenBranch elseBranch :: ·) ?_
    rw [List.filterMap_append, statement?_moments thenBranch, statement?_moments elseBranch]
  | .every n interval body, s, p =>
    congrArg (Statement.every n interval body :: ·) (statement?_allMoments body _ _)

theorem statement?_allMoments : (sts : List Statement) → (s : Sketch) → (p : Position) →
    (s.allMoments p sts).filterMap Moment.statement? = Statement.allParts sts
  | [], _, _ => rfl
  | first :: rest, s, p => by
    rw [allMoments, List.filterMap_append, statement?_moments first, statement?_allMoments rest,
      Statement.allParts]

end

end Sketch

end BasicSketch
