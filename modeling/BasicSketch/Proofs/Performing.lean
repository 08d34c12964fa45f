import BasicSketch.Proofs.Emitting

set_option autoImplicit false

/-! What the actions do, step by step. -/

namespace BasicSketch

open Text

/-- What a statement or a line is to the blocks around it. -/
inductive Role where
  | inside
  | opens (block : Block)
  | divides (block : Block)
  | closes (block : Block)
  deriving DecidableEq, Repr

namespace Action

def role : Action → Role
  | .ifBlock _ => .opens .branch
  | .elseIf _ | .elseBlock => .divides .branch
  | .endIf => .closes .branch
  | .forLoop .. | .forEach .. => .opens .counted
  | .next => .closes .counted
  | .whileLoop _ => .opens .whileLoop
  | .wend => .closes .whileLoop
  | .doLoop _ => .opens (.doLoop false)
  | .loopEnd _ => .closes (.doLoop false)
  | .select _ => .opens (.select false)
  | .caseOf _ | .caseElse => .divides (.select false)
  | .endSelect => .closes (.select false)
  | .typeStart _ => .opens .record
  | .typeEnd => .closes .record
  | .enumStart _ => .opens .enumeration
  | .enumEnd => .closes .enumeration
  | _ => .inside

def construct : Action → Cpp.Construct
  | .forLoop .. | .forEach .. => .forLoop
  | .whileLoop _ | .doLoop (.whileTrue _) | .doLoop (.untilTrue _) => .whileLoop
  | .doLoop .always => .doLoop
  | .select _ => .switch
  | _ => .other

/-- Declares no name and neither begins nor ends a procedure. -/
def isChore : Action → Bool
  | .const .. | .arrayLiteral _ | .dim _ | .static _ | .assign .. | .procedureStart _
  | .procedureEnd _ => false
  | _ => true

/-- Writes nothing but where it stands. -/
def isRouted : Action → Bool
  | .procedureStart _ | .procedureEnd _ | .const .. | .sprite .create .. => false
  | .arrayLiteral a => !a.constant
  | _ => true

/-- Leaves the symbols alone. -/
def isQuiet : Action → Bool
  | .optionBase _ | .includeFile _ | .draw .. | .sprite .. | .arrayLiteral _ | .dim _ | .static _
  | .procedureStart _ | .procedureEnd _ => false
  | _ => true

def declarations : Action → List Declaration
  | .dim ds | .static ds => ds
  | _ => []

variable {a : Action} {block : Block}

theorem mem_declarations {d : Declaration} (mem : d ∈ a.declarations) :
    d.raws ⊆ a.raws ∧ d.exprs ⊆ a.exprs ∧ (a.Clean → d.Clean) ∧ a.isChore = false := by
  have within {ds : List Declaration} (mem : d ∈ ds) (texts : Declaration → List String) :
      texts d ⊆ ds.flatMap texts := fun text here => List.mem_flatMap.2 ⟨d, mem, here⟩
  cases a with
  | dim ds => exact ⟨within mem _, within mem _, fun clean => clean d mem, rfl⟩
  | static ds => exact ⟨within mem _, within mem _, fun clean => clean d mem, rfl⟩
  | _ => cases mem

theorem role_of_isPlain (plain : a.isPlain = true) : a.role = .inside := by
  cases a <;> first | rfl | simp [isPlain] at plain

theorem isPlain_of_role (other : a.role ≠ .inside) : a.isPlain = false :=
  Bool.eq_false_iff.2 fun plain => other (role_of_isPlain plain)

theorem isSteady_of_isCalm (calm : a.isCalm = true) : a.isSteady = true := by
  cases a <;> first | rfl | simp [isCalm, isPlain] at calm

theorem isSteady_of_divides (role : a.role = .divides block) : a.isSteady = true := by
  cases a <;> first | rfl | cases role

theorem isSteady_of_opens (role : a.role = .opens block) : a.isSteady = false := by
  cases a <;> first | rfl | cases role

theorem isSteady_of_closes (role : a.role = .closes block) : a.isSteady = false := by
  cases a <;> first | rfl | cases role

end Action

namespace Sketch

variable {a : Action} {s s' s'' : Sketch} {text : String} {keeps : Bool} {block : Block}

/-! Blocks: the lines that open, divide and close them. -/

theorem emitFor_eq (s : Sketch) (counter : String) (start stop : Expr) (step : Option Expr) :
    ∃ text, s.emitFor counter start stop step = (s.emit text).openBlock .counted ∧
      (Action.forLoop counter start stop step).Composes s.symbols text ∧
      Cpp.Heads .forLoop text ∧ Ends '\x7b' text := by
  generalize same : Action.forLoop counter start stop step = a
  have head : Cpp.Heads .forLoop "for (" := Cpp.heads_ofList (by decide)
  have named : a.Composes s.symbols counter := .word (by simp [← same, Action.raws])
  have first : a.Composes s.symbols (s.value start) := .value (by simp [← same, Action.exprs])
  have last : a.Composes s.symbols (s.value stop) := .value (by simp [← same, Action.exprs])
  have declared : a.Composes s.symbols (if s.isDeclared counter then "" else "int ") := by
    split <;> exact .fixed rfl
  have compare (n : Int) : a.Composes s.symbols (if n < 0 then ">=" else "<=") := by
    split <;> exact .fixed rfl
  refine ⟨_, rfl, ?_⟩
  simp only [toString_text]
  cases step with
  | none =>
    dsimp only
    refine ⟨?_, ?_, (ends_ofList rfl).after _⟩
    · have number := @Action.Composes.int a s.symbols 1
      have upward := compare 1
      repeat' with_reducible apply Action.Composes.append
      all_goals first | with_reducible assumption | with_reducible exact .fixed (by decide)
    · simp only [String.append_assoc]
      exact head.append _
  | some by_ =>
    dsimp only
    cases by_.integer? with
    | some n =>
      refine ⟨?_, ?_, (ends_ofList rfl).after _⟩
      · have number := @Action.Composes.int a s.symbols n
        have direction := compare n
        repeat' with_reducible apply Action.Composes.append
        all_goals first | with_reducible assumption | with_reducible exact .fixed (by decide)
      · simp only [String.append_assoc]
        exact head.append _
    | none =>
      have change : a.Composes s.symbols (Cpp.operand (s.value by_)) :=
        .operand (.value (by simp [← same, Action.exprs]))
      refine ⟨?_, ?_, Ends.after ((ends_ofList rfl).after _) _⟩
      · repeat' with_reducible apply Action.Composes.append
        all_goals first | with_reducible assumption | with_reducible exact .fixed (by decide)
      · simp only [String.append_assoc]
        exact head.append _

theorem perform_opens (role : a.role = .opens block) (s : Sketch) :
    ∃ text top, s.perform a = (s.emit text).openBlock top ∧ top.sameKind block = true ∧
      a.Composes s.symbols text ∧ Cpp.Heads a.construct text ∧ Ends '\x7b' text := by
  have last {text : String} : Ends '\x7b' (text ++ ") \x7b") := (ends_ofList rfl).after _
  have named {text : String} : Ends '\x7b' (text ++ " \x7b") := (ends_ofList rfl).after _
  have test {c : Expr} (mem : c.text ∈ a.exprs) : a.Composes s.symbols (s.condition c) :=
    .expression .condition mem
  cases a with
  | ifBlock c =>
    cases role
    have head : Cpp.Heads .other "if (" := Cpp.heads_ofList (by decide)
    exact ⟨_, .branch, rfl, rfl, .around (test List.mem_cons_self) rfl,
      (head.append _).append _, last⟩
  | forLoop counter start stop step =>
    cases role
    obtain ⟨text, eq, rest⟩ := emitFor_eq s counter start stop step
    exact ⟨text, .counted, eq, rfl, rest⟩
  | forEach counter collection =>
    cases role
    have head : Cpp.Heads .forLoop "for (auto& " := Cpp.heads_ofList (by decide)
    refine ⟨_, .counted, rfl, rfl, ?_, (((head.append _).append _).append _).append _, last⟩
    exact .append (.append (.around (.word List.mem_cons_self) rfl) (.value List.mem_cons_self))
      (.fixed rfl)
  | whileLoop c =>
    cases role
    have head : Cpp.Heads .whileLoop "while (" := Cpp.heads_ofList (by decide)
    exact ⟨_, .whileLoop, rfl, rfl, .around (test List.mem_cons_self) rfl,
      (head.append _).append _, last⟩
  | doLoop loopTest =>
    cases role
    cases loopTest with
    | always =>
      exact ⟨_, .doLoop false, rfl, rfl, .fixed rfl, Cpp.heads_ofList (by decide), ends_ofList rfl⟩
    | whileTrue c =>
      have head : Cpp.Heads .whileLoop "while (" := Cpp.heads_ofList (by decide)
      exact ⟨_, .doLoop true, rfl, rfl, .around (test List.mem_cons_self) rfl,
        (head.append _).append _, last⟩
    | untilTrue c =>
      have head : Cpp.Heads .whileLoop "while (!(" := Cpp.heads_ofList (by decide)
      exact ⟨_, .doLoop true, rfl, rfl, .around (test List.mem_cons_self) rfl,
        (head.append _).append _, (ends_ofList rfl).after _⟩
  | select subject =>
    cases role
    have head : Cpp.Heads .switch "switch (" := Cpp.heads_ofList (by decide)
    exact ⟨_, .select false, rfl, rfl, .around (.value List.mem_cons_self) rfl,
      (head.append _).append _, last⟩
  | typeStart name =>
    cases role
    have head : Cpp.Heads .other "struct " := Cpp.heads_ofList (by decide)
    exact ⟨_, .record, rfl, rfl, .around (.word List.mem_cons_self) rfl,
      (head.append _).append _, named⟩
  | enumStart name =>
    cases role
    have head : Cpp.Heads .other "enum " := Cpp.heads_ofList (by decide)
    exact ⟨_, .enumeration, rfl, rfl, .around (.word List.mem_cons_self) rfl,
      (head.append _).append _, named⟩
  | _ => cases role

theorem perform_closes (role : a.role = .closes block) (undivided : a ≠ .endSelect) (s : Sketch) :
    ∃ blocks events text, s.perform a = { s with blocks, events }.emit text ∧
      s.Closed block blocks events ∧ a.Composes s.symbols text ∧ Begins '\x7d' text ∧
      ∃ last, Ends last text ∧ last ≠ '\x7b' := by
  have brace : Begins '\x7d' "\x7d" ∧ ∃ last, Ends last "\x7d" ∧ last ≠ '\x7b' :=
    ⟨begins_ofList rfl, _, ends_ofList rfl, by decide⟩
  have body : Begins '\x7d' "\x7d;" ∧ ∃ last, Ends last "\x7d;" ∧ last ≠ '\x7b' :=
    ⟨begins_ofList rfl, _, ends_ofList rfl, by decide⟩
  cases a with
  | endIf | next | wend =>
    cases role
    obtain ⟨blocks, events, eq, closed⟩ := closeBlock_eq s _ "\x7d"
    exact ⟨blocks, events, _, eq, closed, .fixed rfl, brace⟩
  | typeEnd | enumEnd =>
    cases role
    obtain ⟨blocks, events, eq, closed⟩ := emitBodyEnd_eq s _
    exact ⟨blocks, events, _, eq, closed, .fixed rfl, body⟩
  | loopEnd test =>
    cases role
    exact emitLoopEnd_eq s test
  | endSelect => exact absurd rfl undivided
  | _ => cases role

theorem perform_divides (divides : a.role = .divides .branch) (s : Sketch) :
    ∃ text, s.perform a = s.emitOutdented text ∧ a.Composes s.symbols text ∧
      Begins '\x7d' text ∧ Ends '\x7b' text := by
  cases a with
  | elseBlock => exact ⟨_, rfl, .fixed rfl, begins_ofList rfl, ends_ofList rfl⟩
  | elseIf c =>
    exact ⟨_, rfl, .around (.expression .condition List.mem_cons_self) rfl,
      ((begins_ofList rfl).append _).append _, (ends_ofList rfl).after _⟩
  | _ => cases divides

theorem foldl_emitOutdented_symbols (labels : List String) (s : Sketch) :
    (labels.foldl emitOutdented s).symbols = s.symbols := by
  induction labels generalizing s with
  | nil => rfl
  | cons text rest ih => rw [List.foldl_cons, ih, emitOutdented, push_symbols]

theorem symbols_createSprite (s : Sketch) (sprite : String) (values : List String) :
    (s.createSprite sprite values).symbols = s.symbols := by
  unfold createSprite
  split
  · rfl
  · simp [emitGlobal, emitSetup]

/-! Texts. -/

section Texts

variable {d : Declaration}

theorem composes_typeName {type : Option TypeRef} (raws : type.toList.map TypeRef.name ⊆ a.raws)
    (σ : Symbols) : a.Composes σ (Cpp.typeName (type.map TypeRef.name)) := by
  refine .typeName fun n mem => raws ?_
  obtain ⟨t, here, rfl⟩ := Option.map_eq_some_iff.1 mem
  exact List.mem_map_of_mem (Option.mem_toList.2 here)

theorem composes_cpp {t : TypeRef} (raw : t.name ∈ a.raws) (σ : Symbols) :
    a.Composes σ t.cpp := by
  have name : a.Composes σ (Cpp.typeName (some t.name)) := .typeName (by simpa using raw)
  unfold TypeRef.cpp
  dsimp only
  split
  · exact .append name (.fixed rfl)
  · exact name

theorem composes_typeText {type : Option TypeRef} (raws : type.toList.map TypeRef.name ⊆ a.raws)
    (σ : Symbols) : a.Composes σ (typeText type) := by
  cases type with
  | none => exact @composes_typeName a none raws σ
  | some t => exact composes_cpp (raws (by simp)) σ

theorem composes_parameterText (s : Sketch) {p : Parameter} (σ : Symbols)
    (raws : p.name :: p.type.toList.map TypeRef.name ⊆ a.raws) :
    a.Composes σ (s.parameterText p).1 := by
  obtain ⟨name, type⟩ := List.cons_subset.1 raws
  have name : a.Composes σ p.name := .word name
  have type := composes_typeName type σ
  unfold parameterText
  dsimp only
  repeat' split
  · exact .append (.append type (.fixed rfl)) name
  · exact .append (.append (.append type (.fixed rfl)) name) (.fixed rfl)
  · exact .append (.append type (.fixed rfl)) name
  · exact .append (.append type (.fixed rfl)) name

theorem composes_parameterTexts (s : Sketch) {ps : List Parameter} (σ : Symbols)
    (raws : (ps.flatMap fun p => p.name :: p.type.toList.map TypeRef.name) ⊆ a.raws) :
    ∀ text ∈ (s.parameterTexts ps).2.1, a.Composes σ text := by
  induction ps generalizing s with
  | nil => simp [parameterTexts]
  | cons p rest ih =>
    rw [List.flatMap_cons, List.append_subset] at raws
    exact List.forall_mem_cons.2 ⟨composes_parameterText s σ raws.1, ih _ raws.2⟩

theorem composes_result (h : ProcedureHeader) (σ : Symbols) :
    (Action.procedureStart h).Composes σ
      (match h.kind with
        | .sub => "void"
        | .function => typeText h.result) := by
  cases h.kind with
  | sub => exact .fixed rfl
  | function => exact composes_typeText (by simp [Action.raws]) σ

theorem composes_declarationText (s : Sketch) (raws : d.raws ⊆ a.raws) (exprs : d.exprs ⊆ a.exprs) :
    a.Composes s.symbols (s.declarationText d).1 := by
  obtain ⟨name, type⟩ := List.cons_subset.1 raws
  have name : a.Composes s.symbols d.name := .word name
  have type := composes_typeName type s.symbols
  simp only [Declaration.exprs, List.map_append, List.append_subset] at exprs
  have sizes : a.Composes s.symbols (sizes (d.dimensions.map s.value)) :=
    .sizes (.values exprs.1)
  have value {other : String} (composes : a.Composes s.symbols other) :
      a.Composes s.symbols ((d.initial.map s.value).getD other) := .given exprs.2 composes
  have null : a.Composes s.symbols ((d.initial.map s.value).getD "nullptr") := value (.fixed rfl)
  have zero := value (.initialValue (Cpp.typeName (d.type.map TypeRef.name)))
  have given {v : String} (eq : d.initial.map s.value = some v) : a.Composes s.symbols v := by
    simpa [eq] using null
  unfold declarationText
  dsimp only
  simp only [toString_text]
  repeat' split
  all_goals
    repeat' with_reducible apply Action.Composes.append
    all_goals first
      | with_reducible assumption
      | with_reducible exact .fixed (by decide)
      | exact given ‹_›

theorem line_variable (s : Sketch) (isStatic : Bool) (mem : d ∈ a.declarations) :
    a.Line s.symbols false (s.variableText isStatic d) := by
  obtain ⟨raws, exprs, clean, -⟩ := Action.mem_declarations mem
  have composes := composes_declarationText s raws exprs
  have leads (given : a.Clean) {rest : String} :
      LeadsStatement (Cpp.typeName (d.type.map TypeRef.name) ++ rest) :=
    leadsStatement_append rest (typeName_map_spelled (clean given).type).2
  have text : (a.Clean → LeadsStatement (s.declarationText d).1) ∧
      Ends ';' (s.declarationText d).1 := by
    unfold declarationText
    dsimp only
    repeat' split
    all_goals
      refine ⟨fun given => ?_, (ends_ofList rfl).after _⟩
      simp only [toString_text, String.append_assoc]
      exact leads given
  cases isStatic with
  | false => simpa [variableText] using Action.Line.statement composes text.1 text.2 (by decide)
  | true =>
    exact .statement (.append (.fixed rfl) composes)
      (fun _ => leadsStatement_append _ (leadsStatement_ofList (by decide))) (text.2.after _)
      (by decide)

theorem line_typeField (s : Sketch) (field : Declaration) :
    (Action.typeField field).Line s.symbols false
      s!"{typeText field.type} {field.name}{sizes (field.dimensions.map s.value)};" := by
  generalize same : Action.typeField field = a
  have name : a.Composes s.symbols field.name :=
    .word (by simp [← same, Action.raws, Declaration.raws])
  have type : a.Composes s.symbols (typeText field.type) :=
    composes_typeText (by simp [← same, Action.raws, Declaration.raws]) s.symbols
  have sizes : a.Composes s.symbols (sizes (field.dimensions.map s.value)) :=
    .sizes (.values (by simp [← same, Action.exprs, Declaration.exprs]))
  refine .statement ?_ (fun clean => ?_) ((ends_ofList rfl).after _) (by decide)
  · exact .append (.append (.append (.append type (.fixed rfl)) name) sizes) (.fixed rfl)
  · subst same
    simp only [toString_text, String.append_assoc]
    exact leadsStatement_append _ (typeText_spelled (Declaration.Clean.type clean)).2

theorem line_const (s : Sketch) (name : String) (value : Expr) :
    (Action.const name value).Line s.symbols false (s.constText name value) := by
  unfold constText
  cases quoted : value.isQuoted with
  | true =>
    refine .statement (.append (.append (.append (.append (.fixed rfl) (.word ?_)) (.fixed rfl))
      (.word ?_)) (.fixed rfl)) (fun _ => ?_) ((ends_ofList rfl).after _) (by decide)
    · simp [Action.raws, quoted]
    · simp [Action.raws, quoted]
    · simp only [toString_text, String.append_assoc]
      exact leadsStatement_append _ (leadsStatement_ofList (by decide))
  | false =>
    refine .statement (.append (.append (.append (.append (.fixed rfl) (.word ?_)) (.fixed rfl))
      (.value ?_)) (.fixed rfl)) (fun _ => ?_) ((ends_ofList rfl).after _) (by decide)
    · simp [Action.raws, quoted]
    · simp [Action.exprs, quoted]
    · simp only [toString_text, String.append_assoc]
      exact leadsStatement_append _ (leadsStatement_ofList (by decide))

theorem line_arrayLiteral (s : Sketch) (literal : ArrayLiteral) :
    (Action.arrayLiteral literal).Line s.symbols false (s.literalText literal) ∧
      (Action.arrayLiteral literal).Line s.symbols false ("const " ++ s.literalText literal) := by
  generalize same : Action.arrayLiteral literal = a
  have name : a.Composes s.symbols literal.name := .word (by simp [← same, Action.raws])
  have type := composes_cpp (a := a) (t := literal.type) (by simp [← same, Action.raws]) s.symbols
  have listed : a.Composes s.symbols (", ".intercalate (literal.elements.map s.value)) :=
    .intercalate (.fixed rfl) (.values (by simp [← same, Action.exprs]))
  have composes : a.Composes s.symbols (s.literalText literal) :=
    .append (.append (.append (.append (.append type (.fixed rfl)) name) (.fixed rfl)) listed)
      (.fixed rfl)
  have ends : Ends ';' (s.literalText literal) := (ends_ofList rfl).after _
  refine ⟨.statement composes (fun clean => ?_) ends (by decide),
    .statement (.append (.fixed rfl) composes)
      (fun _ => leadsStatement_append _ (leadsStatement_ofList (by decide))) (ends.after _)
      (by decide)⟩
  subst same
  simp only [literalText, toString_text, String.append_assoc]
  exact leadsStatement_append _ (cpp_spelled (ArrayLiteral.Clean.type clean)).2

end Texts

/-- The steps of an action that neither begins nor ends a procedure, and whether they leave a
comment. -/
inductive Does (a : Action) : Bool → Sketch → Sketch → Prop
  | line (s : Sketch) {σ : Symbols} {depth : Nat} {keeps : Bool} {text : String}
    (known : σ.bounds ⊆ s.symbols.bounds) (line : a.Line σ keeps text)
    (level : a.isPlain = true → depth = s.depth) :
    Does a keeps s (s.push true s.scope depth text)
  | elsewhere (s : Sketch) {σ : Symbols} {scope : Scope} {depth : Nat} {text : String}
    (known : σ.bounds ⊆ s.symbols.bounds) (line : a.Line σ false text)
    (unrouted : a.isRouted = false) (apart : scope ≠ .procedure) :
    Does a false s (s.push false scope depth text)
  | note (s : Sketch) {symbols : Symbols} {includes sprites globalNames localNames : List String}
    {events : List Event}
    (learned : ∀ entry ∈ symbols.bounds,
      entry ∈ s.symbols.bounds ∨ ∀ b ∈ entry.2, a.Composes s.symbols b)
    (included : ∀ t ∈ includes, t ∈ s.includes ∨ a = .includeFile t)
    (quiet : Quiet s { s with events }) (still : a.isQuiet = true → symbols = s.symbols)
    (named : a.isChore = true → globalNames = s.globalNames ∧ localNames = s.localNames) :
    Does a false s { s with symbols, includes, sprites, globalNames, localNames, events }
  | hoist (s : Sketch) {p : Procedure} {name : String} (opened : s.open? = some p)
    (assigns : ∃ v, a = .assign name v) :
    Does a false s { s with open? := some { p with hoisted := p.hoisted ++ [name] } }
  | turn (s : Sketch) (blocks : List Block) (events : List Event) (busy : a.isPlain = false) :
    Does a false s { s with blocks, events }
  | trans {keeps keeps' : Bool} {s s' s'' : Sketch} (first : Does a keeps s s')
    (second : Does a keeps' s' s'') : Does a (keeps || keeps') s s''

namespace Does

theorem next (first : Does a false s s') (second : Does a keeps s' s'') : Does a keeps s s'' :=
  first.trans second

theorem events (s : Sketch) {events : List Event} (quiet : Quiet s { s with events }) :
    Does a false s { s with events } :=
  note s (fun _ mem => .inl mem) (fun _ mem => .inl mem) quiet (fun _ => rfl) fun _ => ⟨rfl, rfl⟩

theorem refl (s : Sketch) : Does a false s s := events s (.of_eq rfl)

theorem symbols (s : Sketch) {symbols : Symbols} (loud : a.isQuiet = false)
    (learned : ∀ entry ∈ symbols.bounds,
      entry ∈ s.symbols.bounds ∨ ∀ b ∈ entry.2, a.Composes s.symbols b) :
    Does a false s { s with symbols } :=
  note s learned (fun _ mem => .inl mem) (.of_eq rfl) (fun quiet => by simp [loud] at quiet)
    fun _ => ⟨rfl, rfl⟩

theorem names (s : Sketch) {globalNames localNames : List String} (new : a.isChore = false) :
    Does a false s { s with globalNames, localNames } :=
  note s (fun _ mem => .inl mem) (fun _ mem => .inl mem) (.of_eq rfl) (fun _ => rfl)
    fun chore => by simp [new] at chore

theorem emit (s : Sketch) (line : a.Line s.symbols keeps text) : Does a keeps s (s.emit text) :=
  .line s (List.Subset.refl _) line fun _ => rfl

theorem emitOutdented (s : Sketch) (busy : a.isPlain = false) (line : a.Line s.symbols keeps text) :
    Does a keeps s (s.emitOutdented text) :=
  .line s (List.Subset.refl _) line fun plain => by simp [busy] at plain

theorem drawn (s : Sketch) (loud : a.isQuiet = false) : Does a false s s.setDrawn :=
  symbols s loud fun _ mem => .inl mem

/-! One lemma for each way of writing. -/

theorem emitDeclaration (s : Sketch) (isStatic : Bool) {d : Declaration}
    (mem : d ∈ a.declarations) : Does a false s (s.emitDeclaration isStatic d) := by
  obtain ⟨-, exprs, -, new⟩ := Action.mem_declarations mem
  obtain ⟨reported, quiet, eq⟩ := emitDeclaration_eq s isStatic d
  obtain ⟨globalNames, localNames, declared⟩ := declare_frame s d.name
  obtain ⟨σ, text, known, learned⟩ := declarationText_bounds s d
  have loud : a.isQuiet = false := by
    cases a <;> first | rfl | cases mem
  rw [eq, declared, text]
  split
  · exact events s quiet
  · refine (note s (fun entry here => ?_) (fun _ mem => .inl mem) quiet
      (fun still => by simp [loud] at still) fun chore => by simp [new] at chore).next
      (.line _ known (line_variable s isStatic mem) fun _ => rfl)
    refine (learned entry here).imp_right fun same => ?_
    rw [same]
    exact Action.Composes.values fun text here => exprs (by simp_all [Declaration.exprs])

theorem emitDeclarations (s : Sketch) (isStatic : Bool) {ds : List Declaration}
    (inside : ds ⊆ a.declarations) : Does a false s (s.emitDeclarations isStatic ds) := by
  unfold Sketch.emitDeclarations
  induction ds generalizing s with
  | nil => exact refl s
  | cons d rest ih =>
    obtain ⟨first, others⟩ := List.cons_subset.1 inside
    exact (emitDeclaration s isStatic first).next (ih _ others)

theorem hoists (s : Sketch) (name : String) (value : Expr) :
    Does (.assign name value) false s (s.hoist name) := by
  rcases hoist_cases s name with same | ⟨-, ⟨-, eq⟩ | ⟨q, opened, eq⟩⟩
  · rw [same]
    exact refl s
  · rw [eq]
    exact names s rfl
  · have reported := (names s rfl).next (events (a := .assign name value)
      { s with localNames := s.localNames ++ [lower name] }
      (Quiet.report _ (e := .hoisted s.line name) rfl))
    rw [eq]
    exact reported.next (.hoist (Sketch.report _ _) opened ⟨value, rfl⟩)

theorem emitConst (s : Sketch) (name : String) (value : Expr) :
    Does (.const name value) false s (s.emitConst name value) := by
  obtain ⟨new, quiet, eq⟩ := emitConst_eq s name value
  obtain ⟨globalNames, declared⟩ := declareGlobal_frame s name
  rw [eq, declared]
  split
  · exact events s quiet
  · exact (names s rfl).next (.elsewhere { s with globalNames } (List.Subset.refl _)
      (line_const s name value) rfl (by decide))

theorem emitArrayLiteral (s : Sketch) (literal : ArrayLiteral) :
    Does (.arrayLiteral literal) false s (s.emitArrayLiteral literal) := by
  obtain ⟨new, quiet, eq⟩ := emitArrayLiteral_eq s literal
  obtain ⟨globalNames, global⟩ := declareGlobal_frame s literal.name
  obtain ⟨globalNames', localNames, declared⟩ := declare_frame s literal.name
  obtain ⟨here, there⟩ := line_arrayLiteral s literal
  have sized (t : Sketch) : Does (.arrayLiteral literal) false t
      (t.addBounds literal.name [toString (literal.elements.length - 1)]) := by
    refine symbols t rfl fun entry mem => (List.mem_cons.1 mem).symm.imp_right fun new => ?_
    rw [new]
    simpa using Action.Composes.nat _
  rw [eq, global, declared]
  split
  · exact events s quiet
  · split
    · rename_i constant
      exact (names s rfl).next ((sized _).next (.elsewhere (Sketch.addBounds _ _ _)
        (List.subset_cons_self ..) there (by simp [Action.isRouted, constant]) (by decide)))
    · exact (names s rfl).next ((sized _).next (.line (Sketch.addBounds _ _ _)
        (List.subset_cons_self ..) here fun _ => rfl))

theorem emitEnumMember (s : Sketch) (name : String) (value : Option Expr) :
    Does (.enumMember name value) false s (s.emitEnumMember name value) := by
  have leads {rest : String} (clean : (Action.enumMember name value).Clean) :
      LeadsStatement (name ++ rest) :=
    leadsStatement_append rest (leadsStatement_of_named clean.1.2)
  cases value with
  | none =>
    exact emit s (.statement (.append (.word List.mem_cons_self) (.fixed rfl)) leads
      ((ends_ofList rfl).after _) (by decide))
  | some value =>
    refine emit s (.statement (.append (.append (.append (.word List.mem_cons_self) (.fixed rfl))
      (.value List.mem_cons_self)) (.fixed rfl)) (fun clean => ?_) ((ends_ofList rfl).after _)
        (by decide))
    simp only [toString_text, String.append_assoc]
    exact leads clean

theorem emitBoard (s : Sketch) (function : BoardFunction) (arguments : List Expr) :
    Does (.board function arguments) false s (s.emitBoard function arguments) := by
  have values : ∀ v ∈ arguments.map s.value,
      (Action.board function arguments).Composes s.symbols v := .values (List.Subset.refl _)
  have all : (Action.board function arguments).Composes s.symbols
      (", ".intercalate (arguments.map s.value)) := .intercalate (.fixed rfl) values
  have first : (Action.board function arguments).Composes s.symbols
      ((arguments.map s.value).head?.getD "") := by
    cases eq : (arguments.map s.value).head? with
    | none => exact .fixed rfl
    | some v => exact values v (List.mem_of_head? eq)
  cases function with
  | serialBegin =>
    exact ((emit s (.around all rfl)).next (emit _ (.around (.nat _) rfl))).next
      (emit _ (.around (.nat _) rfl))
  | deepSleep => exact emit s (.around (.operand first) rfl)
  | lightSleep | wakeOnInterrupt => exact emit s (.around first rfl)
  | hibernate => exact emit s (.fixed rfl)
  | _ => exact emit s (.around all rfl)

theorem emitDraw (s : Sketch) (command : DrawCommand) (arguments : List Expr) :
    Does (.draw command arguments) false s (s.emitDraw command arguments) := by
  have values : ∀ v ∈ arguments.map s.setDrawn.value,
      (Action.draw command arguments).Composes s.setDrawn.symbols v := .values (List.Subset.refl _)
  have object (display : Display) : (Action.draw command arguments).Composes s.setDrawn.symbols
      display.object := by
    cases display <;> exact .fixed rfl
  have leads (display : Display) {rest : String} : LeadsStatement (display.object ++ rest) :=
    leadsStatement_append rest (display_spelled display).2
  have clear (display : Display) : (Action.draw command arguments).Composes s.setDrawn.symbols
      (clearCall display) := by
    cases display <;> exact .fixed rfl
  have method : (Action.draw command arguments).Composes s.setDrawn.symbols command.method := by
    cases command <;> exact .fixed rfl
  refine (drawn s rfl).next ?_
  unfold Sketch.emitDraw
  dsimp only
  split
  · refine emit _ (.statement (.append (.append (.append (object _) (.fixed rfl)) (clear _))
      (.fixed rfl)) (fun _ => ?_) ((ends_ofList rfl).after _) (by decide))
    simp only [toString_text, String.append_assoc]
    exact leads _
  · refine emit _ (.called (.append (.append (object _) (.fixed rfl)) method) (fun _ => ?_) ?_)
    · simp only [toString_text, String.append_assoc]
      exact leads _
    · split
      · exact fun v mem => values v (List.dropLast_subset _ mem)
      · exact values

theorem createSprite (s : Sketch) {sprite : String} {arguments : List Expr} {values : List String}
    (each : ∀ v ∈ values, (Action.sprite .create sprite arguments).Composes s.symbols v)
    (plain : (Action.sprite .create sprite arguments).Clean →
      ∀ c ∈ sprite.toList, isNameChar c = true) :
    Does (.sprite .create sprite arguments) false s (s.createSprite sprite values) := by
  have named {σ : Symbols} : (Action.sprite .create sprite arguments).Composes σ sprite :=
    .word List.mem_cons_self
  unfold Sketch.createSprite
  split
  · exact events s (Quiet.report s rfl)
  · have added : Does (.sprite .create sprite arguments) false s
        { s with sprites := s.sprites ++ [sprite] } :=
      note s (fun _ mem => .inl mem) (fun _ mem => .inl mem) (.of_eq rfl) (fun _ => rfl)
        fun _ => ⟨rfl, rfl⟩
    refine added.next ((elsewhere _ (List.Subset.refl _) (.around named rfl) rfl (by decide)).next
      (@elsewhere _ _ s.symbols _ _ _ ?_ ?_ rfl (by decide)))
    · simp
    · refine .called (.append named (.fixed rfl)) (fun clean => ?_) each
      exact Cpp.leadsStatement_object (plain clean) (leadsStatement_ofList (by decide))

theorem emitSprite (s : Sketch) (command : SpriteCommand) (sprite : String)
    (arguments : List Expr) :
    Does (.sprite command sprite arguments) (command == .create) s
      (s.emitSprite command sprite arguments) := by
  have named {σ : Symbols} : (Action.sprite command sprite arguments).Composes σ sprite :=
    .word List.mem_cons_self
  have values : ∀ v ∈ arguments.map s.setDrawn.value,
      (Action.sprite command sprite arguments).Composes s.setDrawn.symbols v :=
    .values (List.Subset.refl _)
  have dotted (clean : (Action.sprite command sprite arguments).Clean) {rest : String} :
      LeadsStatement (sprite ++ "." ++ rest) :=
    leadsStatement_append rest
      (Cpp.leadsStatement_object clean.1 (leadsStatement_ofList (by decide)))
  refine (drawn s rfl).next ?_
  cases command with
  | create =>
    have same := symbols_createSprite s.setDrawn sprite (arguments.map s.setDrawn.value)
    refine (createSprite _ values fun clean => clean.1).next
      (.line _ (by rw [same]; exact List.Subset.refl _) ?_ fun _ => rfl)
    simp only [toString_text, String.append_assoc]
    refine .remark rfl fun clean flat => ?_
    simp only [flat_append]
    refine ⟨flat_of_isNameChar clean.1, flat_text rfl, flat_intercalate (flat_text rfl) ?_⟩
    exact fun v mem => (values v mem).flat clean flat
  | delete =>
    refine emit s.setDrawn (.statement (.append named (.fixed rfl)) (fun clean => ?_)
      ((ends_ofList rfl).after _) (by decide))
    exact Cpp.leadsStatement_object clean.1 (leadsStatement_ofList (by decide))
  | _ =>
    exact emit s.setDrawn (.called (.append (.append named (.fixed rfl)) (.fixed rfl))
      (fun clean => dotted clean) values)

theorem emitAssign (s : Sketch) (target : String) (value : Expr) :
    Does (.assign target value) false s (s.emitAssign target value) := by
  have hoisted : Does (.assign target value) false s
      (if isPlainName target && !constructs value then s.hoist target else s) := by
    split
    · exact hoists s target value
    · exact refl s
  refine hoisted.next (emit _ (.statement (.append (.append (.append (.expression .target ?_)
    (.fixed rfl)) (.value ?_)) (.fixed rfl)) (fun clean => ?_) ((ends_ofList rfl).after _)
      (by decide)))
  · simp [Action.exprs]
  · simp [Action.exprs]
  · simp only [toString_text, String.append_assoc]
    exact leadsStatement_append _ (Cpp.leadsStatement_target _ clean.1.1 clean.1.2)

theorem emitClock (s : Sketch) (clock : Clock) :
    Does (.clock clock) (clock != .timer) s (s.emitClock clock) := by
  have remark {text : String} (known : Action.isRemark text.toList = true) :
      (Action.clock clock).Line s.symbols true text := by
    simpa using Action.Line.noted known
  cases clock with
  | timer => exact emit s (.fixed rfl)
  | _ => exact emit s (remark (by decide))

theorem openBlock (role : a.role = .opens block) (s : Sketch) : Does a false s (s.perform a) := by
  obtain ⟨text, top, eq, -, composes, heads, -⟩ := perform_opens role s
  have busy := Action.isPlain_of_role (a := a) (by simp [role])
  rw [eq]
  exact (emit s (.unsteady (Action.isSteady_of_opens role) composes heads.leads.1)).next
    (turn _ _ _ busy)

theorem leadsCode_of_begins (begins : Begins '\x7d' text) : LeadsCode text := by
  simp [LeadsCode, show text.toList.head? = some '\x7d' from begins, isBlank]

theorem closeBlock (role : a.role = .closes block) (undivided : a ≠ .endSelect) (s : Sketch) :
    Does a false s (s.perform a) := by
  obtain ⟨blocks, events, text, eq, -, composes, begins, -⟩ := perform_closes role undivided s
  have busy := Action.isPlain_of_role (a := a) (by simp [role])
  rw [eq]
  exact (turn s blocks events busy).next (emit { s with blocks, events }
    (.unsteady (Action.isSteady_of_closes role) composes (leadsCode_of_begins begins)))

theorem divides (role : a.role = .divides .branch) (s : Sketch) :
    Does a false s (s.perform a) := by
  obtain ⟨text, eq, composes, begins, ends⟩ := perform_divides role s
  have busy := Action.isPlain_of_role (a := a) (by simp [role])
  rw [eq]
  exact emitOutdented s busy
    (.code composes (fun _ flat => .of_leads flat (leadsCode_of_begins begins))
    fun _ _ => Cpp.stays_of_divides begins ends)

theorem enterCase (s : Sketch) (busy : a.isPlain = false) : Does a false s s.enterCase := by
  obtain ⟨blocks, events, eq | eq⟩ := enterCase_cases s
  · rw [eq]
    exact turn s blocks events busy
  · rw [eq]
    exact (turn s blocks events busy).next (emit _ (.fixed rfl))

theorem emitLabels {labels : List String} (busy : a.isPlain = false) {σ : Symbols}
    (lines : ∀ text ∈ labels, a.Line σ false text) (s : Sketch) (same : s.symbols = σ) :
    Does a false s (labels.foldl Sketch.emitOutdented s) := by
  induction labels generalizing s with
  | nil => exact refl s
  | cons text rest ih =>
    obtain ⟨first, others⟩ := List.forall_mem_cons.1 lines
    exact (emitOutdented s busy (same ▸ first)).next
      (ih others _ (by simp [Sketch.emitOutdented, same]))

theorem caseLabels (s : Sketch) {values : List CaseValue} {v : CaseValue} (mem : v ∈ values)
    (t : Sketch) (same : t.symbols = s.symbols) :
    Does (.caseOf values) v.keepsComment t ((s.caseLabels v).foldl Sketch.emitOutdented t) := by
  have exprs : v.exprs ⊆ (Action.caseOf values).exprs :=
    fun text here => List.mem_flatMap.2 ⟨v, mem, here⟩
  cases v with
  | value v =>
    refine emitLabels rfl (fun text label => ?_) t same
    rw [mem_caseLabels label]
    exact .around (.value (exprs List.mem_cons_self)) rfl
  | range low high =>
    refine emitLabels rfl (fun text label => ?_) t same
    rcases mem_caseLabels label with ⟨n, rfl⟩ | rfl
    · exact .around (.int n) rfl
    · refine .statement (.append (.append (.append (.append (.fixed rfl) (.value ?_)) (.fixed rfl))
        (.value ?_)) (.fixed rfl)) (fun _ => ?_) ((ends_ofList rfl).after _) (by decide)
      · exact exprs List.mem_cons_self
      · exact exprs (List.mem_cons_of_mem _ List.mem_cons_self)
      · simp only [toString_text, String.append_assoc]
        exact leadsStatement_append _ (leadsStatement_ofList (by decide))
  | comparison operator v =>
    refine emitOutdented t rfl ?_
    simp only [toString_text, String.append_assoc]
    refine .remark rfl fun clean flat => ?_
    obtain ⟨compared, value⟩ := clean _ mem
    simp only [flat_append]
    exact ⟨compared, flat_text rfl, Cpp.flat_value (same ▸ flat) value, flat_text rfl⟩

theorem emitCase (s : Sketch) (values : List CaseValue) :
    Does (.caseOf values) (values.any CaseValue.keepsComment) s (s.emitCase values) := by
  have labelled (vs : List CaseValue) (inside : vs ⊆ values) (t : Sketch)
      (same : t.symbols = s.symbols) :
      Does (.caseOf values) (vs.any CaseValue.keepsComment) t
        ((vs.flatMap s.caseLabels).foldl Sketch.emitOutdented t) := by
    induction vs generalizing t with
    | nil => exact refl t
    | cons v rest ih =>
      obtain ⟨first, others⟩ := List.cons_subset.1 inside
      rw [List.flatMap_cons, List.foldl_append, List.any_cons]
      refine (caseLabels s first t same).trans (ih others _ ?_)
      rw [foldl_emitOutdented_symbols, same]
  refine (enterCase s rfl).next (labelled values (List.Subset.refl _) _ ?_)
  obtain ⟨blocks, events, eq | eq⟩ := enterCase_cases s
  · rw [eq]
  · rw [eq]
    simp [Sketch.emit]

theorem emitEndSelect (s : Sketch) : Does .endSelect false s s.emitEndSelect := by
  unfold Sketch.emitEndSelect
  generalize leaving : (if s.blocks.head? == some (.select true) then s.emit "break;" else s) = t
  have left : Does .endSelect false s t := by
    rw [← leaving]
    split
    · exact emit s (.unsteady rfl (.fixed rfl) (by decide))
    · exact refl s
  obtain ⟨blocks, events, eq, -⟩ := closeBlock_eq t (.select false) "\x7d"
  dsimp only
  rw [eq]
  exact left.next ((turn t blocks events rfl).next
    (emit { t with blocks, events } (.unsteady rfl (.fixed rfl) (by decide))))

theorem perform (s : Sketch) (a : Action) (begins : ∀ h, a ≠ .procedureStart h)
    (ends : ∀ kind, a ≠ .procedureEnd kind) : Does a a.keepsComment s (s.perform a) := by
  cases a with
  | procedureStart h => exact absurd rfl (begins h)
  | procedureEnd kind => exact absurd rfl (ends kind)
  | label name =>
    exact emit s (.statement (.append (.word List.mem_cons_self) (.fixed rfl))
      (fun clean => leadsStatement_append _ (leadsStatement_of_named clean.2))
      ((ends_ofList rfl).after _) (by decide))
  | optionBase base => exact symbols s rfl fun _ mem => .inl mem
  | optionExplicit => exact refl s
  | includeFile target =>
    refine note s (fun _ mem => .inl mem) (fun t mem => ?_) (.of_eq rfl)
      (fun quiet => by cases quiet)
      fun _ => ⟨rfl, rfl⟩
    exact (mem_insertSorted mem).symm.imp_right fun same => by rw [same]
  | malformedHeader source =>
    exact emit s (.code (.word List.mem_cons_self)
      (fun clean flat => .of_leadsCode flat clean.2) fun steady => by cases steady)
  | const name value => exact emitConst s name value
  | arrayLiteral literal => exact emitArrayLiteral s literal
  | dim declarations => exact emitDeclarations s false (List.Subset.refl _)
  | static declarations => exact emitDeclarations s true (List.Subset.refl _)
  | typeField field => exact emit s (line_typeField s field)
  | typeStart | enumStart | ifBlock | forLoop | forEach | whileLoop | doLoop | select =>
    exact openBlock rfl s
  | typeEnd | enumEnd | endIf | next | wend | loopEnd => exact closeBlock rfl (by simp) s
  | elseIf | elseBlock => exact divides rfl s
  | enumMember name value => exact emitEnumMember s name value
  | exitLoop | exitProcedure | continueLoop | doEvents => exact emit s (.fixed rfl)
  | goto label => exact emit s (.around (.word List.mem_cons_self) rfl)
  | messageBox e | returnValue e => exact emit s (.around (.value List.mem_cons_self) rfl)
  | inputBox | endWith => exact emit s (.noted rfl)
  | unsupported source => exact emit s (.remark rfl fun clean _ => clean)
  | withObject object =>
    refine emit s ?_
    rw [String.append_assoc]
    exact .remark rfl fun clean _ => (flat_append ..).2 ⟨clean, flat_text rfl⟩
  | untranslated source =>
    exact (events s (Quiet.report s (e := .untranslated s.line source) rfl)).next
      (emit _ (.remark rfl fun clean _ => clean))
  | clock clock => exact emitClock s clock
  | caseOf values => exact emitCase s values
  | caseElse => exact (enterCase s rfl).next (emitOutdented _ rfl (.fixed rfl))
  | endSelect => exact emitEndSelect s
  | board function arguments => exact emitBoard s function arguments
  | draw command arguments => exact emitDraw s command arguments
  | sprite command sprite arguments =>
    have done := emitSprite s command sprite arguments
    cases command <;> exact done
  | randomize seed =>
    exact emit s (.around (.given (List.Subset.refl _) (.fixed rfl)) rfl)
  | call name arguments =>
    exact emit s (.called (.value List.mem_cons_self)
      (fun clean => Cpp.leadsStatement_calledName _ clean.1.1 clean.1.2.1 clean.1.2.2)
      (.values (List.subset_cons_self ..)))
  | assign target value => exact emitAssign s target value

theorem plain (s : Sketch) (plain : a.isPlain = true) : Does a a.keepsComment s (s.perform a) :=
  perform s a (fun h same => by rw [same] at plain; cases plain)
    fun kind same => by rw [same] at plain; cases plain

theorem chore (s : Sketch) (chore : a.isChore = true) : Does a a.keepsComment s (s.perform a) :=
  perform s a (fun h same => by rw [same] at chore; cases chore)
    fun kind same => by rw [same] at chore; cases chore

end Does

end Sketch

end BasicSketch
