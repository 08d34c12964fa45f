import BasicSketch.Proofs.CleanReading
import BasicSketch.Proofs.CppNesting
import BasicSketch.Proofs.FlatExpression
import BasicSketch.Proofs.MarkedLine
import BasicSketch.Sketch.Emit

set_option autoImplicit false

/-! The texts that actions write. -/

namespace BasicSketch

open Text

namespace Declaration

def raws (d : Declaration) : List String := d.name :: d.type.toList.map TypeRef.name

def exprs (d : Declaration) : List String := (d.dimensions ++ d.initial.toList).map Expr.text

end Declaration

def CaseValue.exprs : CaseValue → List String
  | .value v => [v.text]
  | .range low high => [low.text, high.text]
  | .comparison .. => []

def CaseValue.keepsComment : CaseValue → Bool
  | .comparison .. => true
  | _ => false

def LoopTest.exprs : LoopTest → List String
  | .always => []
  | .whileTrue c | .untilTrue c => [c.text]

namespace Action

def raws : Action → List String
  | .label text | .typeStart text | .enumStart text | .enumMember text _ | .goto text
  | .forLoop text .. | .forEach text _ | .sprite _ text _ | .malformedHeader text => [text]
  | .procedureStart h =>
    h.name :: h.result.toList.map TypeRef.name ++
      h.parameters.flatMap fun p => p.name :: p.type.toList.map TypeRef.name
  | .const name value => if value.isQuoted then [name, value.text] else [name]
  | .arrayLiteral a => [a.name, a.type.name]
  | .dim ds | .static ds => ds.flatMap Declaration.raws
  | .typeField d => d.raws
  | _ => []

def exprs : Action → List String
  | .const _ value => if value.isQuoted then [] else [value.text]
  | .arrayLiteral a => a.elements.map Expr.text
  | .dim ds | .static ds => ds.flatMap Declaration.exprs
  | .typeField d => d.exprs
  | .enumMember _ value => value.toList.map Expr.text
  | .messageBox e | .ifBlock e | .elseIf e | .forEach _ e | .whileLoop e | .select e
  | .returnValue e => [e.text]
  | .forLoop _ start stop step => [start.text, stop.text] ++ step.toList.map Expr.text
  | .doLoop test | .loopEnd test => test.exprs
  | .caseOf values => values.flatMap CaseValue.exprs
  | .board _ es | .draw _ es | .sprite _ _ es => es.map Expr.text
  | .randomize seed => seed.toList.map Expr.text
  | .call name es => (Expr.ofText name).text :: es.map Expr.text
  | .assign target value => [target, value.text]
  | _ => []

def keepsComment : Action → Bool
  | .inputBox | .unsupported _ | .withObject _ | .endWith | .untranslated _
  | .sprite .create .. => true
  | .clock kind => kind != .timer
  | .caseOf values => values.any CaseValue.keepsComment
  | _ => false

end Action

theorem Declaration.Clean.flat {d : Declaration} (clean : d.Clean) :
    (∀ text ∈ d.raws, Flat text) ∧ ∀ text ∈ d.exprs, Flat text := by
  refine ⟨List.forall_mem_cons.2 ⟨clean.name, ?_⟩, ?_⟩
  · simpa using fun t mem => (clean.type t mem).1
  · simp only [Declaration.exprs, List.mem_map, List.mem_append, Option.mem_toList]
    rintro _ ⟨e, dimension | initial, rfl⟩
    · exact clean.dimensions e dimension
    · exact clean.initial e initial

theorem Action.Clean.flat {a : Action} (clean : a.Clean) :
    (∀ text ∈ a.raws, Flat text) ∧ ∀ text ∈ a.exprs, Flat text := by
  have each {α : Type} {xs : List α} {texts : α → List String}
      (flat : ∀ x ∈ xs, ∀ text ∈ texts x, Flat text) : ∀ text ∈ xs.flatMap texts, Flat text :=
    fun text mem => by
      obtain ⟨x, among, here⟩ := List.mem_flatMap.1 mem
      exact flat x among text here
  have typed {type : Option TypeRef} (clean : ∀ t ∈ type, t.Clean) :
      ∀ text ∈ type.toList.map TypeRef.name, Flat text := by
    simpa using fun t mem => (clean t mem).1
  have nothing : ∀ text ∈ ([] : List String), Flat text := List.forall_mem_nil _
  have word {own : String} (flat : Flat own) : ∀ text ∈ [own], Flat text :=
    List.forall_mem_singleton.2 flat
  have listed {es : List Expr} (clean : ∀ e ∈ es, e.Clean) : ∀ text ∈ es.map Expr.text, Flat text :=
    List.forall_mem_map.2 clean
  have optional {e : Option Expr} (clean : ∀ x ∈ e, x.Clean) :
      ∀ text ∈ e.toList.map Expr.text, Flat text :=
    listed fun x mem => clean x (Option.mem_toList.1 mem)
  cases a with
  | procedureStart h =>
    refine ⟨?_, by simp [Action.exprs]⟩
    simp only [Action.raws, List.cons_append, List.forall_mem_cons, List.forall_mem_append]
    refine ⟨clean.name, typed clean.result, each fun p mem => List.forall_mem_cons.2 ?_⟩
    exact ⟨(clean.parameters p mem).name, typed (clean.parameters p mem).type⟩
  | dim ds | static ds =>
    exact ⟨each fun d mem => (clean d mem).flat.1, each fun d mem => (clean d mem).flat.2⟩
  | typeField d => exact Declaration.Clean.flat clean
  | arrayLiteral a =>
    exact ⟨List.forall_mem_cons.2 ⟨clean.name, word clean.type.1⟩, listed clean.elements⟩
  | sprite command object arguments =>
    exact ⟨word (flat_of_isNameChar clean.1), listed clean.2⟩
  | call name arguments =>
    exact ⟨nothing, List.forall_mem_cons.2 ⟨Expr.clean_ofText clean.1.1, listed clean.2⟩⟩
  | caseOf values =>
    refine ⟨nothing, each fun v mem => ?_⟩
    have given := clean v mem
    cases v with
    | value e => exact word given
    | range low high => exact List.forall_mem_cons.2 ⟨given.1, word given.2⟩
    | comparison => exact nothing
  | doLoop test | loopEnd test =>
    cases test with
    | always => exact ⟨nothing, nothing⟩
    | whileTrue c | untilTrue c => exact ⟨nothing, word clean⟩
  | const name value =>
    rw [Action.raws, Action.exprs]
    split
    · exact ⟨List.forall_mem_cons.2 ⟨clean.1, word clean.2⟩, nothing⟩
    · exact ⟨word clean.1, word clean.2⟩
  | label text | malformedHeader text => exact ⟨word clean.1, nothing⟩
  | typeStart text | enumStart text | goto text => exact ⟨word clean, nothing⟩
  | enumMember name value => exact ⟨word clean.1.1, optional clean.2⟩
  | messageBox e | ifBlock e | elseIf e | whileLoop e | select e | returnValue e =>
    exact ⟨nothing, word clean⟩
  | forEach counter collection => exact ⟨word clean.1, word clean.2⟩
  | forLoop counter start stop step =>
    obtain ⟨counter, start, stop, step⟩ := clean
    exact ⟨word counter,
      List.forall_mem_cons.2 ⟨start, List.forall_mem_cons.2 ⟨stop, optional step⟩⟩⟩
  | board command arguments | draw command arguments => exact ⟨nothing, listed clean⟩
  | randomize seed => exact ⟨nothing, optional clean⟩
  | assign target value =>
    exact ⟨nothing, List.forall_mem_cons.2 ⟨clean.1.1, word clean.2⟩⟩
  | _ => exact ⟨nothing, nothing⟩

def Cpp.isFixed (cs : List Char) : Bool :=
  !cs.contains '\n' && Cpp.Region.code.after cs == .code &&
    Cpp.Region.code.after (dropBlanksEnd cs) == .code

/-- The text is made of fixed texts and of the words and expressions of the action. -/
inductive Action.Composes (a : Action) (σ : Symbols) : String → Prop
  | fixed {cs : List Char} (known : Cpp.isFixed cs = true) : Composes a σ (String.ofList cs)
  | word {text : String} (mem : text ∈ a.raws) : Composes a σ text
  | expression (mode : Cpp.Mode) {text : String} (mem : text ∈ a.exprs) :
    Composes a σ (Cpp.expression σ mode text)
  | nat (n : Nat) : Composes a σ (toString n)
  | append {first second : String} (composes : Composes a σ first)
    (composes' : Composes a σ second) : Composes a σ (first ++ second)

namespace Action.Composes

variable {a : Action} {σ : Symbols} {text : String}

theorem flat (composes : a.Composes σ text) (clean : a.Clean) (flatSymbols : σ.Flat) :
    Flat text := by
  obtain ⟨raws, exprs⟩ := clean.flat
  induction composes with
  | fixed known =>
    simp only [Cpp.isFixed, Bool.and_eq_true, Bool.not_eq_true'] at known
    exact flat_text known.1.1
  | word mem => exact raws _ mem
  | expression mode mem => exact Cpp.flat_expression flatSymbols mode (exprs _ mem)
  | nat n => exact flat_nat n
  | append _ _ first second => exact (flat_append ..).2 ⟨first, second⟩

theorem int (n : Int) : a.Composes σ (toString n) := by
  have natural (m : Nat) : a.Composes σ m.repr := by
    rw [← Nat.toString_eq_repr]
    exact nat m
  rw [Int.toString_eq_repr, Int.repr_eq_if]
  split
  · exact natural _
  · exact append (fixed rfl) (natural _)

theorem around {lead ending : List Char} (inside : a.Composes σ text)
    (known : (Cpp.isFixed lead && Cpp.isFixed ending) = true) :
    a.Composes σ (String.ofList lead ++ text ++ String.ofList ending) := by
  obtain ⟨first, last⟩ := Bool.and_eq_true_iff.1 known
  exact append (append (fixed first) inside) (fixed last)

variable {parts : List String}

theorem join (each : ∀ part ∈ parts, a.Composes σ part) : a.Composes σ (String.join parts) := by
  induction parts with
  | nil => exact fixed rfl
  | cons part rest ih =>
    obtain ⟨first, others⟩ := List.forall_mem_cons.1 each
    rw [String.join_cons]
    exact append first (ih others)

theorem intercalate {sep : String} (between : a.Composes σ sep)
    (each : ∀ part ∈ parts, a.Composes σ part) : a.Composes σ (sep.intercalate parts) := by
  induction parts with
  | nil => exact fixed rfl
  | cons part rest ih =>
    obtain ⟨first, others⟩ := List.forall_mem_cons.1 each
    by_cases alone : rest = []
    · simpa [alone] using first
    · rw [String.intercalate_cons_of_ne_nil alone]
      exact append (append first between) (ih others)

theorem called (named : a.Composes σ text) (each : ∀ part ∈ parts, a.Composes σ part) :
    a.Composes σ (Cpp.called text parts) :=
  append (append (append named (fixed rfl)) (intercalate (fixed rfl) each)) (fixed rfl)

theorem operand (inside : a.Composes σ text) : a.Composes σ (Cpp.operand text) := by
  unfold Cpp.operand
  dsimp only
  split
  · exact inside
  · exact around inside rfl

theorem sizes (each : ∀ part ∈ parts, a.Composes σ part) : a.Composes σ (Sketch.sizes parts) := by
  refine join fun part mem => ?_
  obtain ⟨bound, here, rfl⟩ := List.mem_map.1 mem
  refine around ?_ rfl
  unfold Cpp.dimensionSize
  split
  · exact nat _
  · exact append (each bound here) (fixed rfl)

theorem initialValue (type : String) : a.Composes σ (Cpp.initialValue type) := by
  unfold Cpp.initialValue
  repeat' split
  all_goals exact fixed rfl

theorem typeName {name : Option String} (known : ∀ n ∈ name, n ∈ a.raws) :
    a.Composes σ (Cpp.typeName name) := by
  have primitive : ∀ entry ∈ Cpp.primitives, Cpp.isFixed entry.2.toList = true := by decide
  unfold Cpp.typeName
  split
  · exact fixed rfl
  · rename_i n
    cases eq : Cpp.primitives.lookup (Text.lower n) with
    | none => exact word (known n rfl)
    | some text =>
      have spelled := @fixed a σ _ (primitive _ (Cpp.mem_of_lookup eq))
      rwa [String.ofList_toList] at spelled

theorem value {e : Expr} (mem : e.text ∈ a.exprs) : a.Composes σ (Cpp.value σ e) :=
  expression .value mem

theorem values {es : List Expr} (known : es.map Expr.text ⊆ a.exprs) :
    ∀ v ∈ es.map (Cpp.value σ), a.Composes σ v := by
  intro v mem
  obtain ⟨e, here, rfl⟩ := List.mem_map.1 mem
  exact value (known (List.mem_map_of_mem here))

theorem given {e : Option Expr} (known : e.toList.map Expr.text ⊆ a.exprs)
    (other : a.Composes σ text) : a.Composes σ ((e.map (Cpp.value σ)).getD text) := by
  cases e with
  | none => exact other
  | some e => exact value (known (by simp))

end Action.Composes

namespace Action

/-- Neither opens nor closes a block or a procedure, and divides none. -/
def isPlain : Action → Bool
  | .procedureStart _ | .procedureEnd _ | .typeStart _ | .typeEnd | .enumStart _ | .enumEnd
  | .ifBlock _ | .elseIf _ | .elseBlock | .endIf | .forLoop .. | .forEach .. | .next
  | .whileLoop _ | .wend | .doLoop _ | .loopEnd _ | .select _ | .caseOf _ | .caseElse
  | .endSelect => false
  | _ => true

/-- Neither opens nor closes nor divides anything. -/
def isCalm : Action → Bool
  | .malformedHeader _ => false
  | a => a.isPlain

/-- Neither opens nor closes anything. -/
def isSteady : Action → Bool
  | .elseIf _ | .elseBlock | .caseOf _ | .caseElse => true
  | a => a.isCalm

def leadsLine (cs : List Char) : Bool :=
  cs.head?.any fun c => !isBlank c && c != '/' && c != '\x7d'

def isRemark (cs : List Char) : Bool :=
  ['/', '/'].isPrefixOf cs && !cs.contains '\n' && differs (dropBlanks cs) markerChars &&
    Cpp.Region.code.after cs == .comment

/-- A line of the action, and whether it ends in a comment. -/
inductive Line (a : Action) (σ : Symbols) : Bool → String → Prop
  | code {text : String} (composes : a.Composes σ text)
    (code : a.Clean → Flat text → IsCode text)
    (stays : a.isSteady = true → a.Clean → Cpp.Stays text) : Line a σ false text
  | remark {cs : List Char} (known : isRemark cs = true) {rest : String}
    (flat : a.Clean → σ.Flat → Flat rest) : Line a σ true (String.ofList cs ++ rest)

end Action

namespace Action.Line

variable {a : Action} {σ : Symbols} {text : String} {keeps : Bool} {lead ending : List Char}

theorem isCode (line : a.Line σ keeps text) (clean : a.Clean) (flat : σ.Flat) : IsCode text := by
  cases line with
  | code composes code _ => exact code clean (composes.flat clean flat)
  | remark known flatRest =>
    simp only [isRemark, Bool.and_eq_true] at known
    exact IsCode.lead (flatRest clean flat) (Bool.and_eq_true_iff.2 ⟨known.1.1.2, known.1.2⟩)

theorem stays (line : a.Line σ keeps text) (steady : a.isSteady = true) (clean : a.Clean) :
    Cpp.Stays text := by
  cases line with
  | code _ _ stays => exact stays steady clean
  | remark known =>
    simp only [isRemark, Bool.and_eq_true] at known
    exact Cpp.stays_noted known.1.1.1 _

theorem leadsStatement_of_leadsLine (leads : leadsLine lead = true) :
    LeadsStatement (String.ofList lead) := by
  obtain ⟨c, head, first⟩ := (Option.any_eq_true _ _).1 leads
  simp only [Bool.and_eq_true] at first
  exact leadsStatement_ofList (by simp_all)

theorem statement {last : Char} (composes : a.Composes σ text)
    (leads : a.Clean → LeadsStatement text)
    (ends : Ends last text) (other : last ≠ '\x7b') : a.Line σ false text :=
  .code composes (fun clean flat => .of_leads flat (leads clean).1)
    fun _ clean => Cpp.stays_of_ends (leads clean) ends other

theorem around (inside : a.Composes σ text)
    (known : (Cpp.isFixed lead && Cpp.isFixed ending && leadsLine lead &&
      ending.getLast?.any (· != '\x7b')) = true) :
    a.Line σ false (String.ofList lead ++ text ++ String.ofList ending) := by
  simp only [Bool.and_eq_true] at known
  obtain ⟨⟨fixed, leads⟩, ends⟩ := known
  obtain ⟨last, ends, other⟩ := (Option.any_eq_true _ _).1 ends
  refine statement (.around inside (Bool.and_eq_true_iff.2 fixed)) (fun _ => ?_)
    ((ends_ofList ends).after _) (by simpa using other)
  exact leadsStatement_append _ (leadsStatement_append _ (leadsStatement_of_leadsLine leads))

theorem fixed (known : (Cpp.isFixed lead && leadsLine lead &&
    lead.getLast?.any (· != '\x7b')) = true) : a.Line σ false (String.ofList lead) := by
  simp only [Bool.and_eq_true] at known
  obtain ⟨⟨fixed, leads⟩, ends⟩ := known
  obtain ⟨last, ends, other⟩ := (Option.any_eq_true _ _).1 ends
  exact statement (.fixed fixed) (fun _ => leadsStatement_of_leadsLine leads) (ends_ofList ends)
    (by simpa using other)

theorem called {parts : List String} (named : a.Composes σ text)
    (leads : a.Clean → LeadsStatement text) (each : ∀ part ∈ parts, a.Composes σ part) :
    a.Line σ false (Cpp.called text parts ++ ";") := by
  refine statement (.append (.called named each) (.fixed rfl)) (fun clean => ?_)
    ((ends_ofList rfl).after _) (by decide)
  have opened := leadsStatement_append "(" (leads clean)
  exact leadsStatement_append _ (leadsStatement_append _ (leadsStatement_append _ opened))

theorem unsteady (busy : a.isSteady = false) (composes : a.Composes σ text)
    (leads : LeadsCode text) : a.Line σ false text :=
  .code composes (fun _ flat => .of_leads flat leads) fun steady => by simp [busy] at steady

theorem noted (known : isRemark lead = true) : a.Line σ true (String.ofList lead) := by
  simpa using @remark a σ lead known "" fun _ _ => flat_text rfl

end Action.Line

end BasicSketch
