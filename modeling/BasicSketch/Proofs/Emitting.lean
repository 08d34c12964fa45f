import BasicSketch.Proofs.Writing

set_option autoImplicit false

/-! What each way of writing does to a sketch. -/

namespace BasicSketch

open Text

namespace Sketch

variable {s : Sketch} {name : String}

theorem Quiet.report (s : Sketch) {e : Event} (quiet : e.isMismatch = false) :
    Quiet s (s.report e) :=
  ⟨[e], rfl, by simpa using quiet⟩

/-! Declarations. -/

theorem declareGlobal_frame (s : Sketch) (name : String) :
    ∃ globalNames, s.declareGlobal name = { s with globalNames } := by
  unfold declareGlobal
  split
  · exact ⟨_, rfl⟩
  · exact ⟨_, rfl⟩

theorem declare_local (inside : s.scope ≠ .global) (fresh : lower name ∉ s.localNames) :
    s.declare name = { s with localNames := s.localNames ++ [lower name] } := by
  cases scope : s.scope with
  | global => exact absurd scope inside
  | _ => simp [declare, declaresHere, scope, fresh]

def skips (s : Sketch) (isStatic : Bool) (d : Declaration) : Bool :=
  (s.scope == .setup || s.scope == .loop) && s.isGlobal d.name && !isStatic ||
    s.declaresHere d.name

def skipsLiteral (s : Sketch) (a : ArrayLiteral) : Bool :=
  if a.constant then s.isGlobal a.name else s.declaresHere a.name

def variableText (s : Sketch) (isStatic : Bool) (d : Declaration) : String :=
  (if isStatic then "static " else "") ++ (s.declarationText d).1

def constText (s : Sketch) (name : String) (value : Expr) : String :=
  if value.isQuoted then s!"const char* {name} = {value.text};"
  else s!"const auto {name} = {s.value value};"

def literalText (s : Sketch) (a : ArrayLiteral) : String :=
  let list := ", ".intercalate (a.elements.map s.value)
  s!"{a.type.cpp} {a.name}[] = \x7b{list}\x7d;"

theorem declarationText_bounds (s : Sketch) (d : Declaration) :
    ∃ symbols, (s.declarationText d).2 = { s with symbols } ∧
      s.symbols.bounds ⊆ symbols.bounds ∧
      ∀ entry ∈ symbols.bounds,
        entry ∈ s.symbols.bounds ∨ entry.2 = d.dimensions.map s.value := by
  unfold declarationText
  dsimp only
  by_cases array : d.isArray = true
  · rw [if_pos array]
    refine ⟨_, rfl, List.subset_cons_self .., fun entry mem => ?_⟩
    exact (List.mem_cons.1 mem).symm.imp_right fun new => by rw [new]
  · rw [if_neg array]
    repeat' split
    all_goals exact ⟨_, rfl, List.Subset.refl _, fun entry mem => .inl mem⟩

theorem parameterText_frame (s : Sketch) (p : Parameter) :
    ∃ symbols, (s.parameterText p).2.2 = { s with symbols } ∧
      symbols.bounds = s.symbols.bounds := by
  unfold parameterText
  dsimp only
  split
  · exact ⟨_, rfl, rfl⟩
  · exact ⟨s.symbols, rfl, rfl⟩

theorem parameterTexts_frame (s : Sketch) (ps : List Parameter) :
    ∃ symbols, (s.parameterTexts ps).2.2 = { s with symbols } ∧
      symbols.bounds = s.symbols.bounds := by
  induction ps generalizing s with
  | nil => exact ⟨s.symbols, rfl, rfl⟩
  | cons p rest ih =>
    obtain ⟨symbols, eq, same⟩ := parameterText_frame s p
    obtain ⟨symbols', eq', same'⟩ := ih (s.parameterText p).2.2
    have step : (s.parameterTexts (p :: rest)).2.2 =
        ((s.parameterText p).2.2.parameterTexts rest).2.2 := rfl
    rw [step, eq']
    rw [eq] at same' ⊢
    exact ⟨symbols', rfl, same'.trans same⟩

theorem declarationText_congr {s t : Sketch} (options : t.options = s.options)
    (symbols : t.symbols = s.symbols) (d : Declaration) :
    (t.declarationText d).1 = (s.declarationText d).1 ∧
      (t.declarationText d).2.symbols = (s.declarationText d).2.symbols := by
  have value : t.value = s.value := by
    funext e
    rw [Sketch.value, Sketch.value, symbols]
  have pointer : t.declaresPointer d = s.declaresPointer d := by
    unfold declaresPointer
    rw [options]
  unfold declarationText
  dsimp only
  rw [value, pointer]
  repeat' split
  all_goals simp [addBounds, addPointer, symbols]

theorem emitVariable_eq (s : Sketch) (isStatic : Bool) (d : Declaration) :
    s.emitVariable isStatic d =
      { s.declare d.name with symbols := (s.declarationText d).2.symbols }.emit
        (s.variableText isStatic d) := by
  obtain ⟨globalNames, localNames, declared⟩ := declare_frame s d.name
  obtain ⟨symbols, learned⟩ := declarationText_frame (s.declare d.name) d
  obtain ⟨text, same⟩ := @declarationText_congr s (s.declare d.name) (by rw [declared])
    (by rw [declared]) d
  unfold emitVariable
  dsimp only
  rw [← same, text, learned]
  cases isStatic <;> simp [variableText]

theorem emitDeclaration_eq (s : Sketch) (isStatic : Bool) (d : Declaration) :
    ∃ events, Quiet s { s with events } ∧
      s.emitDeclaration isStatic d =
        if s.skips isStatic d then { s with events }
        else { s.declare d.name with symbols := (s.declarationText d).2.symbols, events }.emit
          (s.variableText isStatic d) := by
  -- what has been reported before makes no difference to the declaration
  have declared (events : List Event) :
      { s with events }.emitVariable isStatic d =
        { s.declare d.name with symbols := (s.declarationText d).2.symbols, events }.emit
          (s.variableText isStatic d) := by
    obtain ⟨text, same⟩ := @declarationText_congr s { s with events } rfl rfl d
    rw [emitVariable_eq, same, variableText, text]
    unfold declare declareGlobal
    repeat' split
    all_goals simp_all [declaresHere, isGlobal, variableText]
  unfold emitDeclaration skips
  dsimp only
  generalize reuses : ((s.scope == .setup || s.scope == .loop) && s.isGlobal d.name) = shared
  have again (t : Sketch) : Quiet t (t.report (.repeatedDeclaration t.line d.name)) :=
    Quiet.report t rfl
  have shadowed : Quiet s (s.report (.shadowsGlobal s.line d.name)) := Quiet.report s rfl
  have reused : Quiet s (s.report (.reusesGlobal s.line d.name)) := Quiet.report s rfl
  have same (e : Event) : (s.report e).declaresHere d.name = s.declaresHere d.name := rfl
  cases shared <;> cases isStatic <;> cases known : s.declaresHere d.name <;>
    simp only [Bool.false_and, Bool.true_and, Bool.not_true, Bool.not_false, Bool.false_eq_true,
      if_false, if_true, Bool.or_false, Bool.or_true, same, known]
  case false.false.false | false.true.false => exact ⟨s.events, .of_eq rfl, declared s.events⟩
  case false.false.true | false.true.true => exact ⟨_, again s, rfl⟩
  case true.false.false | true.false.true => exact ⟨_, reused, rfl⟩
  case true.true.false => exact ⟨_, shadowed, declared _⟩
  case true.true.true => exact ⟨_, shadowed.trans (again _), rfl⟩

theorem emitConst_eq (s : Sketch) (name : String) (value : Expr) :
    ∃ events, Quiet s { s with events } ∧
      s.emitConst name value =
        if s.isGlobal name then { s with events }
        else (s.declareGlobal name).emitGlobal (s.constText name value) := by
  refine ⟨_, Quiet.report s (e := .repeatedConstant s.line name) rfl, ?_⟩
  obtain ⟨globalNames, eq⟩ := declareGlobal_frame s name
  unfold emitConst
  rw [eq]
  rfl

theorem emitArrayLiteral_eq (s : Sketch) (a : ArrayLiteral) :
    ∃ events, Quiet s { s with events } ∧
      s.emitArrayLiteral a =
        if s.skipsLiteral a then { s with events }
        else
          let bounds := [toString (a.elements.length - 1)]
          if a.constant then
            ((s.declareGlobal a.name).addBounds a.name bounds).emitGlobal
            ("const " ++ s.literalText a)
          else ((s.declare a.name).addBounds a.name bounds).emit (s.literalText a) := by
  refine ⟨_, Quiet.report s (e := .repeatedArray s.line a.name) rfl, ?_⟩
  obtain ⟨globalNames, eq⟩ := declareGlobal_frame s a.name
  obtain ⟨globalNames', localNames, eq'⟩ := declare_frame s a.name
  unfold emitArrayLiteral skipsLiteral
  rw [eq, eq']
  cases a.constant <;> simp [report, literalText, addBounds] <;> rfl

/-! Hoisted names. -/

theorem hoist_known (known : s.scope ≠ .procedure ∨ s.isDeclared name = true) : s.hoist name = s :=
  if_pos (by simpa using known)

theorem hoist_fresh {q : Procedure} (inside : s.scope = .procedure) (opened : s.open? = some q)
    (fresh : s.isDeclared name = false) :
    s.hoist name =
      { s with
        localNames := s.localNames ++ [lower name]
        events := s.events ++ [.hoisted s.line name]
        open? := some { q with hoisted := q.hoisted ++ [name] } } := by
  have unseen : lower name ∉ s.localNames := by
    simpa using (Bool.or_eq_false_iff.1 fresh).1
  unfold hoist
  rw [if_neg (by simp [inside, fresh]), declare_local (by simp [inside]) unseen]
  dsimp only
  rw [opened]
  rfl

theorem hoist_cases (s : Sketch) (name : String) :
    s.hoist name = s ∨ (s.scope = .procedure ∧ s.isDeclared name = false) ∧
      (s.open? = none ∧ s.hoist name = { s with localNames := s.localNames ++ [lower name] } ∨
        ∃ q, s.open? = some q ∧ s.hoist name =
          { s with
            localNames := s.localNames ++ [lower name]
            events := s.events ++ [.hoisted s.line name]
            open? := some { q with hoisted := q.hoisted ++ [name] } }) := by
  by_cases inside : s.scope = .procedure
  · cases declared : s.isDeclared name with
    | true => exact .inl (hoist_known (.inr declared))
    | false =>
      have unseen : lower name ∉ s.localNames := by
        simpa using (Bool.or_eq_false_iff.1 declared).1
      refine .inr ⟨⟨inside, rfl⟩, ?_⟩
      cases opened : s.open? with
      | some q => exact .inr ⟨q, rfl, hoist_fresh inside opened declared⟩
      | none =>
        refine .inl ⟨rfl, ?_⟩
        unfold hoist
        rw [if_neg (by simp [inside, declared]), declare_local (by simp [inside]) unseen]
        simp [opened]
  · exact .inl (hoist_known (.inl inside))

/-! Blocks. -/

variable {block top : Block} {below : List Block}

/-- A block of the right kind is closed without a word; otherwise only events are added. -/
theorem close_eq (s : Sketch) (block : Block) :
    ∃ closed blocks events, s.close block = (closed, { s with blocks, events }) ∧
      ∀ top below, s.blocks = top :: below → top.sameKind block = true →
        closed = some top ∧ blocks = below ∧ events = s.events := by
  unfold close
  split
  · exact ⟨_, s.blocks, _, rfl, by simp_all⟩
  · rename_i first rest eq
    by_cases same : first.sameKind block = true
    · rw [if_pos same]
      exact ⟨_, rest, s.events, rfl, by simp_all⟩
    · rw [if_neg same]
      refine ⟨_, s.blocks, _, rfl, fun top below blocks kind => ?_⟩
      obtain ⟨rfl, -⟩ := List.cons.inj (eq.symm.trans blocks)
      exact absurd kind same

/-- What a line that closes a block leaves, if that is the block that is open. -/
def Closed (s : Sketch) (block : Block) (blocks : List Block) (events : List Event) : Prop :=
  ∀ top below, s.blocks = top :: below → top.sameKind block = true →
    blocks = below ∧ Quiet s { s with events }

theorem closed_eq (s : Sketch) (block : Block) (e : Sketch → Event) :
    ∃ blocks events,
      (if (s.close block).1.isNone then (s.close block).2.report (e (s.close block).2)
        else (s.close block).2) = { s with blocks, events } ∧ s.Closed block blocks events := by
  obtain ⟨closed, blocks, events, eq, left⟩ := close_eq s block
  rw [eq]
  cases closed with
  | none =>
    exact ⟨blocks, _, rfl, fun top below here same => by simpa using left top below here same⟩
  | some found =>
    refine ⟨blocks, events, rfl, fun top below here same => ?_⟩
    obtain ⟨-, rest, still⟩ := left top below here same
    exact ⟨rest, .of_eq still⟩

theorem closeBlock_eq (s : Sketch) (block : Block) (closer : String) :
    ∃ blocks events, s.closeBlock block closer = { s with blocks, events }.emit closer ∧
      s.Closed block blocks events := by
  obtain ⟨blocks, events, eq, closed⟩ := closed_eq s block fun s => .unopened s.line closer
  exact ⟨blocks, events, congrArg (emit · closer) eq, closed⟩

theorem emitBodyEnd_eq (s : Sketch) (block : Block) :
    ∃ blocks events, s.emitBodyEnd block = { s with blocks, events }.emit "\x7d;" ∧
      s.Closed block blocks events := by
  obtain ⟨blocks, events, eq, closed⟩ := closed_eq s block fun s => .unopenedBody s.line
  exact ⟨blocks, events, congrArg (emit · "\x7d;") eq, closed⟩

theorem emitLoopEnd_eq (s : Sketch) (test : LoopTest) :
    ∃ blocks events text, s.emitLoopEnd test = { s with blocks, events }.emit text ∧
      s.Closed (.doLoop false) blocks events ∧
      (Action.loopEnd test).Composes s.symbols text ∧ Begins '\x7d' text ∧
      ∃ last, Ends last text ∧ last ≠ '\x7b' := by
  obtain ⟨blocks, events, eq, closed⟩ :=
    closed_eq s (.doLoop false) fun s => .unopenedLoop s.line
  unfold emitLoopEnd
  dsimp only
  rw [eq]
  by_cases entered : ((s.close (.doLoop false)).1 == some (.doLoop true)) = true
  · rw [if_pos entered]
    have brace : Begins '\x7d' "\x7d" ∧ ∃ last, Ends last "\x7d" ∧ last ≠ '\x7b' :=
      ⟨begins_ofList rfl, _, ends_ofList rfl, by decide⟩
    by_cases tested : (test == .always) = true
    · rw [if_pos tested]
      exact ⟨blocks, events, _, rfl, closed, .fixed rfl, brace⟩
    · rw [if_neg tested]
      refine ⟨blocks, _, _, rfl, fun top below here same => ?_, .fixed rfl, brace⟩
      obtain ⟨rest, quiet⟩ := closed top below here same
      exact ⟨rest, quiet.trans (Quiet.report { s with events } rfl)⟩
  · rw [if_neg entered]
    have ends {text : String} : ∃ last, Ends last (text ++ ");") ∧ last ≠ '\x7b' :=
      ⟨_, (ends_ofList rfl).after _, by decide⟩
    cases test with
    | always =>
      exact ⟨blocks, events, _, rfl, closed, .fixed rfl, begins_ofList rfl, _, ends_ofList rfl,
        by decide⟩
    | whileTrue c =>
      exact ⟨blocks, events, _, rfl, closed,
        .around (.expression .condition List.mem_cons_self) rfl,
        ((begins_ofList rfl).append _).append _, ends⟩
    | untilTrue c =>
      exact ⟨blocks, events, _, rfl, closed,
        .around (.expression .condition List.mem_cons_self) rfl,
        ((begins_ofList rfl).append _).append _, _, (ends_ofList rfl).after _, by decide⟩

theorem enterCase_inside {inCase : Bool} (blocks : s.blocks = .select inCase :: below) :
    s.enterCase =
      if inCase then { s with blocks := .select true :: below }.emit "break;"
      else { s with blocks := .select true :: below } := by
  unfold enterCase
  rw [blocks]

theorem enterCase_cases (s : Sketch) :
    ∃ blocks events, s.enterCase = { s with blocks, events } ∨
      s.enterCase = { s with blocks, events }.emit "break;" := by
  unfold enterCase
  split
  · rename_i inCase below _
    refine ⟨.select true :: below, s.events, ?_⟩
    cases inCase with
    | false => exact .inl rfl
    | true => exact .inr rfl
  · exact ⟨s.blocks, _, .inl rfl⟩

end Sketch

end BasicSketch
