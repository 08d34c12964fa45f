import BasicSketch.Proofs.Moments
import BasicSketch.Proofs.Renumbering

set_option autoImplicit false

/-! Writing side by side. -/

namespace BasicSketch

open Text

variable {f : Nat → Nat}

def Event.renumber (f : Nat → Nat) : Event → Event
  | .lineKept line error text => .lineKept (f line) error text
  | .malformedHeader line error => .malformedHeader (f line) error
  | .unclosedBody line body => .unclosedBody (f line) body
  | .unclosedEvery line => .unclosedEvery (f line)
  | .statementsRead count => .statementsRead count
  | .mismatchedClose line closing top => .mismatchedClose (f line) closing top
  | .unclosedBlocks line closer blocks => .unclosedBlocks (f line) closer blocks
  | .hoisted line name => .hoisted (f line) name
  | .endOutside line => .endOutside (f line)
  | .unclosedProcedure line reason => .unclosedProcedure (f line) reason
  | .redefined signature => .redefined signature
  | .reusesGlobal line name => .reusesGlobal (f line) name
  | .shadowsGlobal line name => .shadowsGlobal (f line) name
  | .repeatedDeclaration line name => .repeatedDeclaration (f line) name
  | .repeatedConstant line name => .repeatedConstant (f line) name
  | .repeatedArray line name => .repeatedArray (f line) name
  | .unopenedBody line => .unopenedBody (f line)
  | .repeatedSprite name => .repeatedSprite name
  | .untranslated line source => .untranslated (f line) source
  | .unopened line closer => .unopened (f line) closer
  | .unopenedLoop line => .unopenedLoop (f line)
  | .ignoredLoopTest line => .ignoredLoopTest (f line)
  | .caseOutside line => .caseOutside (f line)

namespace Statement

mutual

@[simp] theorem renumber_id : (st : Statement) → st.renumber id = st
  | .plain .. => rfl
  | .inlineIf _ _ thenBranch => by rw [renumber, renumber_id thenBranch, id]
  | .inlineIfElse _ _ thenBranch elseBranch => by
    rw [renumber, renumber_id thenBranch, renumber_id elseBranch, id]
  | .every _ _ body => by rw [renumber, renumberAll_id body, id]

@[simp] theorem renumberAll_id : (sts : List Statement) → renumberAll id sts = sts
  | [] => rfl
  | first :: rest => by rw [renumberAll, renumber_id first, renumberAll_id rest]

end

end Statement

namespace Sketch

def basis (s : Sketch) : Sketch :=
  { s with
    globals := []
    setup := []
    loop := []
    procedures := []
    signatures := []
    open? := s.open?.map fun _ => ⟨"", [], [], []⟩
    author := none
    line := 0
    marked := []
    capture := none
    events := [] }

def onto (s t : Sketch) : Sketch :=
  { t with
    options := s.options
    symbols := s.symbols
    includes := s.includes
    sprites := s.sprites
    blocks := s.blocks
    scope := s.scope
    globalNames := s.globalNames
    localNames := s.localNames
    everyCount := s.everyCount }

theorem onto_of_basis {s c : Sketch} (same : s.basis = c.basis) : c = s.onto c := by
  cases s
  cases c
  simp only [basis, mk.injEq] at same
  simp only [onto, same]

def hoisting (s : Sketch) (name : String) : Sketch :=
  { s with open? := s.open?.map fun p => { p with hoisted := p.hoisted ++ [name] } }

/-- Sketches that agree go on side by side, and each step of writing keeps them so. -/
structure SideBySide (f : Nat → Nat) (Agree : Sketch → Sketch → Prop)
    (Step : Sketch → Sketch → Sketch → Sketch → Prop) : Prop where
  agree : ∀ {s c s' c'}, Step s c s' c' → Agree s' c'
  trans : ∀ {s c s' c' s'' c''}, Step s c s' c' → Step s' c' s'' c'' → Step s c s'' c''
  basis : ∀ {s c}, Agree s c → s.basis = c.basis
  note : ∀ {s c}, Agree s c → ∀ symbols includes sprites blocks scope globalNames localNames
    everyCount, Step s c
      { s with symbols, includes, sprites, blocks, scope, globalNames, localNames, everyCount }
      { c with symbols, includes, sprites, blocks, scope, globalNames, localNames, everyCount }
  report : ∀ {s c}, Agree s c → ∀ e : Nat → Event, (∀ n, (e n).renumber f = e (f n)) →
    Step s c (s.report (e s.line)) (c.report (e c.line))
  push : ∀ {s c}, Agree s c → ∀ inPlace scope depth text,
    Step s c (s.push inPlace scope depth text) (c.push inPlace scope depth text)
  hoisting : ∀ {s c}, Agree s c → ∀ name, Step s c (s.hoisting name) (c.hoisting name)
  finish : ∀ {s c}, Agree s c → Step s c s.finishProcedure c.finishProcedure
  enter : ∀ {s c}, Agree s c → ∀ signature header,
    Step s c ((s.begin signature).push false .procedure 0 header).head
      ((c.begin signature).push false .procedure 0 header).head
  suspend : ∀ {s c}, Agree s c → Agree s.suspend c.suspend
  resume : ∀ {s c t u}, Agree s c → Step s.suspend c.suspend t u →
    Step s c (t.resume s) (u.resume c)
  captured : ∀ {s c} {write write' : Sketch → Sketch}, Agree s c →
    (∀ t u, Agree t u → Step t u (write t) (write' u)) →
    (s.captured write).1 = (c.captured write').1 ∧
      Step s c (s.captured write).2 (c.captured write').2
  start : ∀ {s c}, Agree s c → ∀ n, Step s c (s.start n) (c.start (f n))
  again : ∀ {s c t u}, Agree s c → Agree t u → Step t u (t.start s.line) (u.start c.line)
  writeFor : ∀ {s c} {write write' : Sketch → Sketch}, Agree s c → ∀ st,
    (∀ t u, Agree t u → Step t u (write t) (write' u)) →
    Step s c (s.writeFor st write) (c.writeFor (st.renumber f) write')

namespace SideBySide

variable {Agree : Sketch → Sketch → Prop} {Step : Sketch → Sketch → Sketch → Sketch → Prop}
  (P : SideBySide f Agree Step) {s c s' c' s'' c'' : Sketch}

include P

theorem next (first : Step s c s' c') (second : Agree s' c' → Step s' c' s'' c'') :
    Step s c s'' c'' :=
  P.trans first (second (P.agree first))

omit P in
theorem choose {a b : Bool} {s₁ c₁ s₂ c₂ : Sketch} (equal : a = b) (yes : Step s c s₁ c₁)
    (no : Step s c s₂ c₂) : Step s c (if a then s₁ else s₂) (if b then c₁ else c₂) := by
  subst equal
  cases a
  · exact no
  · exact yes

section Steps

variable (same : Agree s c)

include same

theorem frame : ∃ t, c = s.onto t := ⟨c, onto_of_basis (P.basis same)⟩

theorem read {α : Type} (g : Sketch → α) (reads : ∀ t : Sketch, g t.basis = g t) : g s = g c := by
  rw [← reads s, P.basis same, reads c]

theorem noted (symbols : Symbols) (includes sprites : List String) (blocks : List Block)
    (scope : Scope) (globalNames localNames : List String) :
    Step s c { s with symbols, includes, sprites, blocks, scope, globalNames, localNames }
      { c with symbols, includes, sprites, blocks, scope, globalNames, localNames } := by
  obtain ⟨t, rfl⟩ := P.frame same
  exact P.note same symbols includes sprites blocks scope globalNames localNames s.everyCount

theorem refl : Step s c s c := by
  obtain ⟨t, rfl⟩ := P.frame same
  exact P.noted same s.symbols s.includes s.sprites s.blocks s.scope s.globalNames s.localNames

theorem setSymbols (symbols : Symbols) : Step s c { s with symbols } { c with symbols } := by
  obtain ⟨t, rfl⟩ := P.frame same
  exact P.noted same symbols s.includes s.sprites s.blocks s.scope s.globalNames s.localNames

theorem setBlocks (blocks : List Block) : Step s c { s with blocks } { c with blocks } := by
  obtain ⟨t, rfl⟩ := P.frame same
  exact P.noted same s.symbols s.includes s.sprites blocks s.scope s.globalNames s.localNames

theorem setLocal (scope : Scope) (localNames : List String) :
    Step s c { s with scope, localNames } { c with scope, localNames } := by
  obtain ⟨t, rfl⟩ := P.frame same
  exact P.noted same s.symbols s.includes s.sprites s.blocks scope s.globalNames localNames

theorem setScope (scope : Scope) : Step s c { s with scope } { c with scope } := by
  obtain ⟨t, rfl⟩ := P.frame same
  exact P.setLocal same scope s.localNames

theorem setNames (globalNames localNames : List String) :
    Step s c { s with globalNames, localNames } { c with globalNames, localNames } := by
  obtain ⟨t, rfl⟩ := P.frame same
  exact P.noted same s.symbols s.includes s.sprites s.blocks s.scope globalNames localNames

theorem line {text text' : String} (equal : text = text') (inPlace : Bool) (scope : Scope)
    (depth : Nat) :
    Step s c (s.push inPlace scope depth text) (c.push inPlace scope depth text') :=
  equal ▸ P.push same inPlace scope depth text

variable {text text' : String} {body body' : Sketch → Sketch}

theorem emit (equal : text = text') : Step s c (s.emit text) (c.emit text') := by
  obtain ⟨t, rfl⟩ := P.frame same
  exact P.line same equal true s.scope s.depth

theorem emitOutdented (equal : text = text') :
    Step s c (s.emitOutdented text) (c.emitOutdented text') := by
  obtain ⟨t, rfl⟩ := P.frame same
  exact P.line same equal true s.scope (s.depth - 1)

theorem reportIf {a b : Bool} (equal : a = b) (e : Nat → Event)
    (natural : ∀ n, (e n).renumber f = e (f n)) :
    Step s c (if a then s.report (e s.line) else s) (if b then c.report (e c.line) else c) :=
  choose equal (P.report same e natural) (P.refl same)

theorem declareGlobal (name : String) :
    Step s c (s.declareGlobal name) (c.declareGlobal name) := by
  obtain ⟨t, rfl⟩ := P.frame same
  exact choose rfl (P.refl same) (P.setNames same (s.globalNames ++ [lower name]) s.localNames)

theorem declare (name : String) : Step s c (s.declare name) (c.declare name) := by
  obtain ⟨t, rfl⟩ := P.frame same
  have locally := choose (rfl : s.declaresHere name = (s.onto t).declaresHere name) (P.refl same)
    (P.setNames same s.globalNames (s.localNames ++ [lower name]))
  unfold Sketch.declare
  rw [show (s.onto t).scope = s.scope from rfl]
  split
  · exact P.declareGlobal same name
  · exact locally

theorem hoist (name : String) : Step s c (s.hoist name) (c.hoist name) := by
  obtain ⟨t, rfl⟩ := P.frame same
  refine choose rfl (P.refl same) (P.next (P.declare same name) fun same => ?_)
  generalize s.declare name = s, (s.onto t).declare name = c at same
  have opened : s.open?.isSome = c.open?.isSome := P.read same (·.open?.isSome) fun t => by
    simp [Sketch.basis]
  have noted := P.next (P.report same (.hoisted · name) fun _ => rfl) fun same =>
    P.hoisting same name
  cases here : s.open? <;> cases there : c.open? <;> simp [here, there] at opened
  · simpa [here, there] using P.refl same
  · simpa [Sketch.hoisting, Sketch.report, here, there] using noted

theorem opens (equal : text = text') (block : Block) :
    Step s c ((s.emit text).openBlock block) ((c.emit text').openBlock block) := by
  refine P.next (P.emit same equal) fun same => ?_
  have blocks := P.read same Sketch.blocks fun _ => rfl
  unfold openBlock
  rw [blocks]
  exact P.setBlocks same _

theorem close (block : Block) :
    (s.close block).1 = (c.close block).1 ∧ Step s c (s.close block).2 (c.close block).2 := by
  unfold Sketch.close
  rw [P.read same Sketch.blocks fun _ => rfl]
  cases c.blocks with
  | nil => exact ⟨rfl, P.report same (.mismatchedClose · block none) fun _ => rfl⟩
  | cons top rest =>
    dsimp only
    split
    · exact ⟨rfl, P.setBlocks same rest⟩
    · exact ⟨rfl, P.report same (.mismatchedClose · block (some top)) fun _ => rfl⟩

theorem closes (block : Block) (e : Nat → Event) (natural : ∀ n, (e n).renumber f = e (f n)) :
    Step s c
      (if (s.close block).1.isNone then (s.close block).2.report (e (s.close block).2.line)
        else (s.close block).2)
      (if (c.close block).1.isNone then (c.close block).2.report (e (c.close block).2.line)
        else (c.close block).2) := by
  obtain ⟨found, closed⟩ := P.close same block
  exact P.next closed fun same => P.reportIf same (congrArg Option.isNone found) e natural

theorem closeBlock (block : Block) (closer : String) :
    Step s c (s.closeBlock block closer) (c.closeBlock block closer) :=
  P.next (P.closes same block (.unopened · closer) fun _ => rfl) fun same => P.emit same rfl

theorem emitBodyEnd (block : Block) : Step s c (s.emitBodyEnd block) (c.emitBodyEnd block) :=
  P.next (P.closes same block .unopenedBody fun _ => rfl) fun same => P.emit same rfl

theorem dropBlocks (closer : String) : Step s c (s.dropBlocks closer) (c.dropBlocks closer) := by
  obtain ⟨t, rfl⟩ := P.frame same
  refine choose rfl (P.refl same) ?_
  exact P.next (P.report same (.unclosedBlocks · closer s.blocks.reverse) fun _ => rfl) fun same =>
    P.setBlocks same []

theorem endProcedure : Step s c s.endProcedure c.endProcedure := by
  unfold Sketch.endProcedure
  rw [P.read same Sketch.scope fun _ => rfl]
  split
  · exact P.report same .endOutside fun _ => rfl
  · exact P.next (P.dropBlocks same _) fun same => P.setScope same .global
  · exact P.next (P.dropBlocks same _) fun same => P.setScope same .global
  · exact P.next (P.next (P.next (P.dropBlocks same _)
      fun same => P.line same rfl false .procedure 0) P.finish) fun same => P.setScope same .global

theorem leave (reason : String) : Step s c (s.leave reason) (c.leave reason) :=
  choose (P.read same (·.scope == .global) fun _ => rfl) (P.refl same)
    (P.next (P.report same (.unclosedProcedure · reason) fun _ => rfl) P.endProcedure)

theorem enterRoutine (scope : Scope) :
    Step s c (s.enterRoutine scope) (c.enterRoutine scope) :=
  P.next (P.leave same _) fun same => P.setLocal same scope []

theorem enterProcedure {signature signature' header header' : String}
    (signatures : signature = signature') (headers : header = header') :
    Step s c (s.enterProcedure signature header) (c.enterProcedure signature' header') := by
  subst signatures headers
  rw [enterProcedure_eq, enterProcedure_eq]
  exact P.next (P.leave same _) fun same => P.enter same signature header

theorem value (e : Expr) : s.value e = c.value e := P.read same (·.value e) fun _ => rfl

theorem condition (e : Expr) : s.condition e = c.condition e :=
  P.read same (·.condition e) fun _ => rfl

theorem addBounds (name : String) {bounds bounds' : List String} (equal : bounds = bounds') :
    Step s c (s.addBounds name bounds) (c.addBounds name bounds') := by
  subst equal
  obtain ⟨t, rfl⟩ := P.frame same
  exact P.setSymbols same _

theorem declarationText (d : Declaration) :
    (s.declarationText d).1 = (c.declarationText d).1 ∧
      Step s c (s.declarationText d).2 (c.declarationText d).2 := by
  obtain ⟨t, rfl⟩ := P.frame same
  unfold Sketch.declarationText
  dsimp only
  rw [show (s.onto t).declaresPointer d = s.declaresPointer d from rfl]
  split
  · exact ⟨rfl, P.addBounds same d.name rfl⟩
  split
  · exact ⟨rfl, P.setSymbols same _⟩
  split
  · cases d.initial <;> exact ⟨rfl, P.refl same⟩
  · exact ⟨rfl, P.refl same⟩

theorem emitVariable (isStatic : Bool) (d : Declaration) :
    Step s c (s.emitVariable isStatic d) (c.emitVariable isStatic d) := by
  refine P.next (P.declare same d.name) fun same => ?_
  obtain ⟨text, noted⟩ := P.declarationText same d
  have equal := congrArg (fun text => if isStatic then "static " ++ text else text) text
  exact P.next noted fun same => P.emit same equal

theorem emitDeclaration (isStatic : Bool) (d : Declaration) :
    Step s c (s.emitDeclaration isStatic d) (c.emitDeclaration isStatic d) := by
  have declares {s c : Sketch} (same : Agree s c) :
      Step s c
        (if s.declaresHere d.name then s.report (.repeatedDeclaration s.line d.name)
          else s.emitVariable isStatic d)
        (if c.declaresHere d.name then c.report (.repeatedDeclaration c.line d.name)
          else c.emitVariable isStatic d) :=
    choose (P.read same (·.declaresHere d.name) fun _ => rfl)
      (P.report same (.repeatedDeclaration · d.name) fun _ => rfl) (P.emitVariable same isStatic d)
  have reuses := P.read same
    (fun t => (t.scope == .setup || t.scope == .loop) && t.isGlobal d.name) fun _ => rfl
  refine choose (congrArg (· && !isStatic) reuses)
    (P.report same (.reusesGlobal · d.name) fun _ => rfl) ?_
  exact P.next (P.reportIf same reuses (.shadowsGlobal · d.name) fun _ => rfl) declares

theorem emitDeclarations (isStatic : Bool) (ds : List Declaration) :
    Step s c (s.emitDeclarations isStatic ds) (c.emitDeclarations isStatic ds) := by
  induction ds generalizing s c with
  | nil => exact P.refl same
  | cons d rest ih => exact P.next (P.emitDeclaration same isStatic d) ih

theorem emitConst (name : String) (value : Expr) :
    Step s c (s.emitConst name value) (c.emitConst name value) := by
  refine choose (P.read same (·.isGlobal name) fun _ => rfl)
    (P.report same (.repeatedConstant · name) fun _ => rfl) ?_
  exact P.next (P.declareGlobal same name) fun same =>
    P.line same (by rw [P.value same value]) false .global 0

theorem emitArrayLiteral (a : ArrayLiteral) :
    Step s c (s.emitArrayLiteral a) (c.emitArrayLiteral a) := by
  have known := P.read same
    (fun t => if a.constant then t.isGlobal a.name else t.declaresHere a.name) fun _ => rfl
  refine choose known (P.report same (.repeatedArray · a.name) fun _ => rfl) ?_
  refine P.next (choose (rfl : a.constant = a.constant) (P.declareGlobal same a.name)
    (P.declare same a.name)) fun same => ?_
  have elements := P.read same (fun t => a.elements.map t.value) fun _ => rfl
  have bounded := P.addBounds same a.name (congrArg (fun vs => [toString (vs.length - 1)]) elements)
  refine P.next bounded fun still => ?_
  exact choose rfl (P.line still (by rw [elements]) false .global 0)
    (P.emit still (by rw [elements]))

theorem parameterTexts (ps : List Parameter) :
    (s.parameterTexts ps).1 = (c.parameterTexts ps).1 ∧
      (s.parameterTexts ps).2.1 = (c.parameterTexts ps).2.1 ∧
      Step s c (s.parameterTexts ps).2.2 (c.parameterTexts ps).2.2 := by
  have first (p : Parameter) {s c : Sketch} (same : Agree s c) :
      (s.parameterText p).1 = (c.parameterText p).1 ∧
        (s.parameterText p).2.1 = (c.parameterText p).2.1 ∧
        Step s c (s.parameterText p).2.2 (c.parameterText p).2.2 := by
    obtain ⟨t, rfl⟩ := P.frame same
    unfold Sketch.parameterText
    dsimp only
    split
    · exact ⟨rfl, rfl, P.setSymbols same _⟩
    · exact ⟨rfl, rfl, P.refl same⟩
  induction ps generalizing s c with
  | nil => exact ⟨rfl, rfl, P.refl same⟩
  | cons p rest ih =>
    obtain ⟨declared, defined, noted⟩ := first p same
    obtain ⟨declared', defined', noted'⟩ := ih (P.agree noted)
    refine ⟨?_, ?_, P.trans noted noted'⟩
    · unfold Sketch.parameterTexts
      dsimp only
      rw [declared, defined, declared']
    · unfold Sketch.parameterTexts
      dsimp only
      rw [declared, defined']

theorem openProcedure (h : ProcedureHeader) :
    Step s c (s.openProcedure h) (c.openProcedure h) := by
  have declares (ps : List Parameter) {s c : Sketch} (same : Agree s c) :
      Step s c (ps.foldl (fun s p => s.declare p.name) s)
        (ps.foldl (fun s p => s.declare p.name) c) := by
    induction ps generalizing s c with
    | nil => exact P.refl same
    | cons p rest ih => exact P.next (P.declare same p.name) ih
  obtain ⟨declared, defined, noted⟩ := P.parameterTexts same h.parameters
  refine P.next (P.next (P.next noted fun same => ?_) fun same => P.declare same h.name)
    (declares h.parameters)
  exact P.enterProcedure same (by rw [declared]) (by rw [defined])

theorem procedureStart (h : ProcedureHeader) :
    Step s c (s.procedureStart h) (c.procedureStart h) :=
  choose rfl (P.enterRoutine same .setup)
    (choose rfl (P.enterRoutine same .loop) (P.openProcedure same h))

theorem emitLoopEnd (test : LoopTest) : Step s c (s.emitLoopEnd test) (c.emitLoopEnd test) := by
  obtain ⟨found, closed⟩ := P.close same (.doLoop false)
  unfold Sketch.emitLoopEnd
  dsimp only
  rw [found]
  generalize (c.close (.doLoop false)).1 = block
  refine P.next (P.next closed fun same => P.reportIf same (rfl : block.isNone = block.isNone)
    .unopenedLoop fun _ => rfl) fun same => ?_
  refine choose rfl ?_ ?_
  · have ignored := P.report same .ignoredLoopTest fun _ => rfl
    exact P.next (choose rfl (P.refl same) ignored) fun same => P.emit same rfl
  · cases test with
    | always => exact P.emit same rfl
    | whileTrue e => exact P.emit same (by rw [P.condition same e])
    | untilTrue e => exact P.emit same (by rw [P.condition same e])

theorem enterCase : Step s c s.enterCase c.enterCase := by
  obtain ⟨t, rfl⟩ := P.frame same
  unfold Sketch.enterCase
  rw [show (s.onto t).blocks = s.blocks from rfl]
  split
  · rename_i inCase rest _
    exact P.next (P.setBlocks same (.select true :: rest)) fun same =>
      choose rfl (P.emit same rfl) (P.refl same)
  · exact P.report same .caseOutside fun _ => rfl

theorem emitCase (values : List CaseValue) : Step s c (s.emitCase values) (c.emitCase values) := by
  have same_labels : values.flatMap s.caseLabels = values.flatMap c.caseLabels :=
    P.read same (fun t => values.flatMap t.caseLabels) fun _ => rfl
  have labels (texts : List String) {s c : Sketch} (same : Agree s c) :
      Step s c (texts.foldl Sketch.emitOutdented s) (texts.foldl Sketch.emitOutdented c) := by
    induction texts generalizing s c with
    | nil => exact P.refl same
    | cons text rest ih => exact P.next (P.emitOutdented same rfl) ih
  unfold Sketch.emitCase
  rw [same_labels]
  exact P.next (P.enterCase same) (labels _)

theorem emitEndSelect : Step s c s.emitEndSelect c.emitEndSelect :=
  P.next (choose (P.read same (·.blocks.head? == some (.select true)) fun _ => rfl)
    (P.emit same rfl) (P.refl same)) fun same => P.closeBlock same _ _

theorem setDrawn : Step s c s.setDrawn c.setDrawn := by
  obtain ⟨t, rfl⟩ := P.frame same
  exact P.setSymbols same _

theorem createSprite (sprite : String) (values : List String) :
    Step s c (s.createSprite sprite values) (c.createSprite sprite values) := by
  obtain ⟨t, rfl⟩ := P.frame same
  refine choose rfl (P.report same (fun _ => .repeatedSprite sprite) fun _ => rfl) ?_
  refine P.next (P.next ?_ fun same => P.line same rfl false .global 0) fun same =>
    P.line same rfl false .setup 1
  exact P.noted same s.symbols s.includes (s.sprites ++ [sprite]) s.blocks s.scope s.globalNames
    s.localNames

theorem emitAssign (target : String) (value : Expr) :
    Step s c (s.emitAssign target value) (c.emitAssign target value) := by
  refine P.next (choose rfl (P.hoist same target) (P.refl same)) fun same => P.emit same ?_
  rw [P.value same value, P.read same (·.target target) fun _ => rfl]

theorem perform (a : Action) : Step s c (s.perform a) (c.perform a) := by
  obtain ⟨t, rfl⟩ := P.frame same
  cases a with
  | optionBase base => exact P.setSymbols same _
  | optionExplicit => exact P.refl same
  | includeFile target =>
    exact P.noted same (s.addInclude target).symbols (s.addInclude target).includes s.sprites
      s.blocks s.scope s.globalNames s.localNames
  | procedureStart header => exact P.procedureStart same header
  | procedureEnd kind => exact P.endProcedure same
  | const name value => exact P.emitConst same name value
  | arrayLiteral literal => exact P.emitArrayLiteral same literal
  | dim declarations => exact P.emitDeclarations same false declarations
  | static declarations => exact P.emitDeclarations same true declarations
  | typeStart name => exact P.opens same rfl .record
  | typeEnd => exact P.emitBodyEnd same .record
  | enumStart name => exact P.opens same rfl .enumeration
  | enumMember name value => cases value <;> exact P.emit same rfl
  | enumEnd => exact P.emitBodyEnd same .enumeration
  | clock clock => cases clock <;> exact P.emit same rfl
  | ifBlock e => exact P.opens same rfl .branch
  | elseIf e => exact P.emitOutdented same rfl
  | elseBlock => exact P.emitOutdented same rfl
  | endIf => exact P.closeBlock same .branch _
  | forLoop counter start stop step => exact P.opens same rfl .counted
  | forEach counter collection => exact P.opens same rfl .counted
  | next => exact P.closeBlock same .counted _
  | whileLoop e => exact P.opens same rfl .whileLoop
  | wend => exact P.closeBlock same .whileLoop _
  | doLoop test => cases test <;> exact P.opens same rfl _
  | loopEnd test => exact P.emitLoopEnd same test
  | select subject => exact P.opens same rfl (.select false)
  | caseOf values => exact P.emitCase same values
  | caseElse => exact P.next (P.enterCase same) fun same => P.emitOutdented same rfl
  | endSelect => exact P.emitEndSelect same
  | board function arguments =>
    cases function with
    | serialBegin =>
      exact P.next (P.next (P.emit same rfl) fun same => P.emit same rfl) fun same =>
        P.emit same rfl
    | _ => exact P.emit same rfl
  | draw command arguments =>
    exact P.next (P.setDrawn same) fun same => choose rfl (P.emit same rfl) (P.emit same rfl)
  | sprite command sprite arguments =>
    refine P.next (P.setDrawn same) fun same => ?_
    cases command with
    | create => exact P.next (P.createSprite same sprite _) fun same => P.emit same rfl
    | _ => exact P.emit same rfl
  | assign target value => exact P.emitAssign same target value
  | untranslated source =>
    exact P.next (P.report same (.untranslated · source) fun _ => rfl) fun same => P.emit same rfl
  | _ => exact P.emit same rfl

theorem announce : Step s c s.announce c.announce := by
  obtain ⟨t, rfl⟩ := P.frame same
  refine P.next ?_ fun same => P.line same rfl false .global 0
  exact P.note same s.symbols s.includes s.sprites s.blocks s.scope s.globalNames s.localNames
    (s.everyCount + 1)

theorem poll {id id' : Nat} (ids : id = id') {interval interval' : String}
    (intervals : interval = interval') : Step s c (s.poll id interval) (c.poll id' interval') := by
  subst ids intervals
  have loop {s c : Sketch} (same : Agree s c) (extra : Nat) (text : String) :
      Step s c (s.emitLoop extra text) (c.emitLoop extra text) :=
    P.line same rfl false .loop (1 + extra)
  exact P.next (P.next (P.next (loop same ..) fun same => loop same ..) fun same => loop same ..)
    fun same => loop same ..

theorem everyTask (beside : ∀ t u, Agree t u → Step t u (body t) (body' u)) :
    Step s.announce.suspend c.announce.suspend
      (((body s.task).start s.line).endProcedure.leave "end of Every block")
      (((body' c.task).start c.line).endProcedure.leave "end of Every block") := by
  have count : s.everyCount = c.everyCount := P.read same Sketch.everyCount fun _ => rfl
  have task := P.enterProcedure (P.suspend (P.agree (P.announce same)))
    (congrArg (fun id => s!"void _every_task_{id + 1}();") count)
    (congrArg (fun id => s!"void _every_task_{id + 1}() \x7b") count)
  exact P.next (P.next (P.next (P.next task fun same => beside s.task c.task same)
    (P.again same)) P.endProcedure) fun same => P.leave same _

theorem emitEvery (interval : Expr) (beside : ∀ t u, Agree t u → Step t u (body t) (body' u)) :
    Step s c (s.emitEvery interval body) (c.emitEvery interval body') := by
  have count : s.everyCount = c.everyCount := P.read same Sketch.everyCount fun _ => rfl
  rw [emitEvery_eq, emitEvery_eq]
  refine P.next (P.next (P.announce same) fun announced =>
    P.resume announced (P.everyTask same beside)) fun still => ?_
  exact P.poll still (congrArg (· + 1) count) (P.value same interval)

end Steps

mutual

theorem place : (st : Statement) → (s c : Sketch) → Agree s c →
    Step s c (s.place st) (c.place (st.renumber f))
  | .plain _ action, _, _, same => P.perform same action
  | .inlineIf _ condition thenBranch, s, c, same => by
    obtain ⟨code, behind⟩ := P.captured same (place thenBranch)
    rw [Statement.renumber, Sketch.place, Sketch.place]
    dsimp only
    rw [code, P.condition same condition]
    exact P.next behind fun still => P.emit still rfl
  | .inlineIfElse _ condition thenBranch elseBranch, s, c, same => by
    obtain ⟨code, behind⟩ := P.captured same (place thenBranch)
    obtain ⟨code', behind'⟩ := P.captured (P.agree behind) (place elseBranch)
    rw [Statement.renumber, Sketch.place, Sketch.place]
    dsimp only
    rw [code, code', P.condition same condition]
    exact P.next (P.trans behind behind') fun still => P.emit still rfl
  | .every _ interval body, s, c, same => by
    rw [Statement.renumber, Sketch.place, Sketch.place]
    exact P.emitEvery same interval (statements body)

theorem statements : (sts : List Statement) → (s c : Sketch) → Agree s c →
    Step s c (s.statements sts) (c.statements (Statement.renumberAll f sts))
  | [], _, _, same => P.refl same
  | first :: rest, s, c, same => by
    rw [Statement.renumberAll, Sketch.statements, Sketch.statements]
    refine P.next (P.writeFor same first fun t u equal => ?_) (statements rest _ _)
    rw [Statement.line_renumber]
    exact P.next (P.start equal first.line) (place first _ _)

end

theorem finished {s c : Sketch} (same : Agree s c) : Step s c s.finish c.finish :=
  P.next (P.leave same _) fun same => P.dropBlocks same _

end SideBySide

end Sketch

end BasicSketch
