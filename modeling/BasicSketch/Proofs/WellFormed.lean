import BasicSketch.Proofs.ProgramProvenance

set_option autoImplicit false

/-!
Every program is well formed: what the writer of the sketch relies on without looking again holds of
each statement, in the body of an `Every` and in the branches of a single-line `If` as well.
-/

namespace BasicSketch

def IsName (text : String) : Bool :=
  match Token.ofLine text with
  | [t] => t.isWord
  | _ => false

def Expr.WellFormed (e : Expr) : Prop := Token.Balanced (Token.ofLine e.text)

def TypeRef.WellFormed (type : TypeRef) : Prop := Token.IsScoped (Token.ofLine type.name) = true

structure Declaration.WellFormed (d : Declaration) : Prop where
  name : IsName d.name = true
  dimensions : ∀ e ∈ d.dimensions, e.WellFormed
  type : ∀ t ∈ d.type, t.WellFormed
  initial : ∀ e ∈ d.initial, e.WellFormed

structure ArrayLiteral.WellFormed (a : ArrayLiteral) : Prop where
  name : IsName a.name = true
  type : a.type.WellFormed
  elements : ∀ e ∈ a.elements, e.WellFormed

structure Parameter.WellFormed (p : Parameter) : Prop where
  name : IsName p.name = true
  type : ∀ t ∈ p.type, t.WellFormed
  initial : ∀ e ∈ p.initial, e.WellFormed

structure ProcedureHeader.WellFormed (h : ProcedureHeader) : Prop where
  name : IsName h.name = true
  parameters : ∀ p ∈ h.parameters, p.WellFormed
  result : ∀ t ∈ h.result, t.WellFormed

def LoopTest.WellFormed : LoopTest → Prop
  | .always => True
  | .whileTrue c | .untilTrue c => c.WellFormed

def CaseValue.WellFormed : CaseValue → Prop
  | .value v | .comparison _ v => v.WellFormed
  | .range low high => low.WellFormed ∧ high.WellFormed

def Arity.Allows (arity : Arity) (arguments : List Expr) : Prop :=
  arity.least ≤ arguments.length ∧ arguments.length ≤ arity.most

def Action.WellFormed : Action → Prop
  | .label name | .typeStart name | .enumStart name => IsName name = true
  | .optionBase base => base = 0 ∨ base = 1
  | .procedureStart header => header.WellFormed
  | .const name value => IsName name = true ∧ value.WellFormed
  | .arrayLiteral literal => literal.WellFormed
  | .dim declarations | .static declarations =>
    declarations ≠ [] ∧ ∀ d ∈ declarations, d.WellFormed
  | .typeField field => field.WellFormed
  | .enumMember name value => IsName name = true ∧ ∀ e ∈ value, e.WellFormed
  | .messageBox e | .withObject e | .ifBlock e | .elseIf e | .whileLoop e | .select e
  | .returnValue e => e.WellFormed
  | .forLoop counter start stop step =>
    IsName counter = true ∧ start.WellFormed ∧ stop.WellFormed ∧ ∀ e ∈ step, e.WellFormed
  | .forEach counter collection => IsName counter = true ∧ collection.WellFormed
  | .doLoop test | .loopEnd test => test.WellFormed
  | .caseOf values => values ≠ [] ∧ ∀ v ∈ values, v.WellFormed
  | .board function arguments =>
    arguments.length = function.arity ∧ ∀ e ∈ arguments, e.WellFormed
  | .draw command arguments => command.arity.Allows arguments ∧ ∀ e ∈ arguments, e.WellFormed
  | .sprite command object arguments =>
    (∀ c ∈ object.toList, c.isAlphanum = true ∨ c = '_') ∧
      command.arity.Allows arguments ∧ ∀ e ∈ arguments, e.WellFormed
  | .randomize seed => ∀ e ∈ seed, e.WellFormed
  | .call _ arguments => ∀ e ∈ arguments, e.WellFormed
  | .assign _ value => value.WellFormed
  -- these hold no name of a declaration and no expression
  | .includeFile _ | .malformedHeader _ | .goto _ | .unsupported _ | .untranslated _
  | .optionExplicit | .procedureEnd _ | .typeEnd | .enumEnd | .exitLoop | .exitProcedure
  | .continueLoop | .inputBox | .endWith | .clock _ | .elseBlock | .endIf | .next | .wend
  | .caseElse | .endSelect | .doEvents => True

section

variable {line : String}

theorem WordOf.isName {name : String} (word : WordOf line name) : IsName name = true := by
  obtain ⟨t, mem, isWord, rfl⟩ := word
  obtain ⟨u, single, same⟩ := Token.ofLine_text mem
  rw [IsName, single]
  exact (congrArg TokenKind.isWord same).trans isWord

theorem Expr.From.wellFormed {e : Expr} (here : e.From line) : e.WellFormed := by
  obtain ⟨ts, inside, balanced, rfl⟩ := here
  exact Token.balanced_trim_slice inside balanced

theorem TypeRef.From.wellFormed {type : TypeRef} (here : type.From line) : type.WellFormed := by
  obtain ⟨first, parts, words, name⟩ := here
  rw [TypeRef.WellFormed, name]
  exact Token.isScoped_joined words

theorem Declaration.From.wellFormed {d : Declaration} (here : d.From line) : d.WellFormed where
  name := here.name.isName
  dimensions e mem := (here.dimensions e mem).wellFormed
  type t mem := (here.type t mem).wellFormed
  initial e mem := (here.initial e mem).wellFormed

theorem ArrayLiteral.From.wellFormed {a : ArrayLiteral} (here : a.From line) : a.WellFormed where
  name := here.name.isName
  type := here.type.wellFormed
  elements e mem := (here.elements e mem).wellFormed

theorem Parameter.From.wellFormed {p : Parameter} (here : p.From line) : p.WellFormed where
  name := here.name.isName
  type t mem := (here.type t mem).wellFormed
  initial e mem := (here.initial e mem).wellFormed

theorem ProcedureHeader.From.wellFormed {h : ProcedureHeader} (here : h.From line) :
    h.WellFormed where
  name := here.name.isName
  parameters p mem := (here.parameters p mem).wellFormed
  result t mem := (here.result t mem).wellFormed

theorem LoopTest.From.wellFormed {test : LoopTest} (here : test.From line) : test.WellFormed := by
  cases test with
  | always => trivial
  | whileTrue c => exact Expr.From.wellFormed here
  | untilTrue c => exact Expr.From.wellFormed here

theorem CaseValue.From.wellFormed {v : CaseValue} (here : v.From line) : v.WellFormed := by
  cases v with
  | value v => exact Expr.From.wellFormed here
  | range low high => exact ⟨here.1.wellFormed, here.2.wellFormed⟩
  | comparison operator v => exact here.2.wellFormed

theorem Arity.allows_of_admits {arity : Arity} {arguments : List Expr}
    (admits : arity.admits arguments.length = true) : arity.Allows arguments := by
  simpa [Arity.admits, Arity.Allows] using admits

theorem Action.From.wellFormed {a : Action} (here : a.From line) : a.WellFormed := by
  have exprs {es : List Expr} (all : ∀ e ∈ es, e.From line) : ∀ e ∈ es, e.WellFormed :=
    fun e mem => (all e mem).wellFormed
  have expr? {e? : Option Expr} (all : ∀ e ∈ e?, e.From line) : ∀ e ∈ e?, e.WellFormed :=
    fun e mem => (all e mem).wellFormed
  cases a with
  | label name | typeStart name | enumStart name => exact WordOf.isName here
  | optionBase base => exact Nat.le_one_iff_eq_zero_or_eq_one.1 here
  | procedureStart header => exact ProcedureHeader.From.wellFormed here
  | const name value => exact ⟨here.1.isName, here.2.wellFormed⟩
  | arrayLiteral literal => exact ArrayLiteral.From.wellFormed here
  | dim ds | static ds => exact ⟨here.1, fun d mem => (here.2 d mem).wellFormed⟩
  | typeField field => exact Declaration.From.wellFormed here
  | enumMember name value => exact ⟨here.1.isName, expr? here.2⟩
  | messageBox e | withObject e | ifBlock e | elseIf e | whileLoop e | select e
  | returnValue e => exact Expr.From.wellFormed here
  | forLoop counter start stop step =>
    exact ⟨here.1.isName, here.2.1.wellFormed, here.2.2.1.wellFormed, expr? here.2.2.2⟩
  | forEach counter collection => exact ⟨here.1.isName, here.2.wellFormed⟩
  | doLoop test | loopEnd test => exact LoopTest.From.wellFormed here
  | caseOf values => exact ⟨here.1, fun v mem => (here.2 v mem).wellFormed⟩
  | board function arguments => exact ⟨here.1, exprs here.2⟩
  | draw command arguments => exact ⟨Arity.allows_of_admits here.1, exprs here.2⟩
  | sprite command object arguments =>
    refine ⟨fun c mem => ?_, Arity.allows_of_admits here.2.1, exprs here.2.2⟩
    simpa [Text.isNameChar] using here.1 c mem
  | randomize seed => exact expr? here
  | call name arguments => exact exprs here.2
  | assign target value => exact here.2.wellFormed
  | includeFile | malformedHeader | goto | unsupported | untranslated | optionExplicit
  | procedureEnd | typeEnd | enumEnd | exitLoop | exitProcedure | continueLoop | inputBox | endWith
  | clock | elseBlock | endIf | next | wend | caseElse | endSelect | doEvents => trivial

end

namespace Statement

mutual

def WellFormed : Statement → Prop
  | .plain _ a => a.WellFormed
  | .inlineIf _ c thenBranch => c.WellFormed ∧ thenBranch.WellFormed
  | .inlineIfElse _ c thenBranch elseBranch =>
    c.WellFormed ∧ thenBranch.WellFormed ∧ elseBranch.WellFormed
  | .every _ interval body => interval.WellFormed ∧ AllWellFormed body

def AllWellFormed : List Statement → Prop
  | [] => True
  | first :: rest => first.WellFormed ∧ AllWellFormed rest

end

variable {good : String → Prop}

mutual

theorem From.wellFormed : ∀ {st : Statement}, st.From good → st.WellFormed
  | .plain _ _, ⟨_, _, here⟩ => here.wellFormed
  | .inlineIf _ _ _, ⟨⟨_, _, condition⟩, branch⟩ => ⟨condition.wellFormed, branch.wellFormed⟩
  | .inlineIfElse _ _ _ _, ⟨⟨_, _, condition⟩, branch, other⟩ =>
    ⟨condition.wellFormed, branch.wellFormed, other.wellFormed⟩
  | .every _ _ _, ⟨⟨_, _, interval⟩, body⟩ => ⟨interval.wellFormed, AllFrom.wellFormed body⟩

theorem AllFrom.wellFormed : ∀ {sts : List Statement}, AllFrom good sts → AllWellFormed sts
  | [], _ => trivial
  | _ :: _, ⟨first, rest⟩ => ⟨first.wellFormed, AllFrom.wellFormed rest⟩

end

end Statement

theorem programs_well_formed (source : String) :
    Statement.AllWellFormed (Program.ofSource source).statements := by
  -- nothing has to be known of the lines, so all of them are good
  have statements : Statement.AllFrom (fun _ => True) (Program.ofSource source).statements :=
    from_ofSource source (fun _ _ => trivial) fun _ _ _ _ => trivial
  exact statements.wellFormed

end BasicSketch
