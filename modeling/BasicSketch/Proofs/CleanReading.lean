import BasicSketch.Proofs.Flat
import BasicSketch.Proofs.Provenance

set_option autoImplicit false

/-! What is read off a line without line feeds has none, and names begin like names. -/

namespace BasicSketch

open Text

namespace Expr

def Clean (e : Expr) : Prop := Flat e.text

theorem clean_ofText {text : String} (flat : Flat text) : (ofText text).Clean := flat_trim flat

end Expr

def TypeRef.Clean (t : TypeRef) : Prop := Flat t.name ∧ Named t.name

structure Declaration.Clean (d : Declaration) : Prop where
  name : Flat d.name
  dimensions : ∀ e ∈ d.dimensions, e.Clean
  type : ∀ t ∈ d.type, t.Clean
  initial : ∀ e ∈ d.initial, e.Clean

structure ArrayLiteral.Clean (a : ArrayLiteral) : Prop where
  name : Flat a.name
  type : a.type.Clean
  elements : ∀ e ∈ a.elements, e.Clean

structure Parameter.Clean (p : Parameter) : Prop where
  name : Flat p.name
  type : ∀ t ∈ p.type, t.Clean
  initial : ∀ e ∈ p.initial, e.Clean

structure ProcedureHeader.Clean (h : ProcedureHeader) : Prop where
  name : Flat h.name
  parameters : ∀ p ∈ h.parameters, p.Clean
  result : ∀ t ∈ h.result, t.Clean

def LoopTest.Clean : LoopTest → Prop
  | .always => True
  | .whileTrue c | .untilTrue c => c.Clean

def CaseValue.Clean : CaseValue → Prop
  | .value v => v.Clean
  | .range low high => low.Clean ∧ high.Clean
  | .comparison operator v => Flat operator ∧ v.Clean

def Action.Clean : Action → Prop
  | .label name => Flat name ∧ Named name
  | .includeFile target => Flat target
  | .procedureStart header => header.Clean
  | .malformedHeader source =>
    Flat source ∧ LeadsCode (String.ofList (dropBlanks source.toList))
  | .const name value => Flat name ∧ value.Clean
  | .arrayLiteral literal => literal.Clean
  | .dim declarations | .static declarations => ∀ d ∈ declarations, d.Clean
  | .typeStart name | .enumStart name => Flat name
  | .typeField field => field.Clean
  | .enumMember name value => (Flat name ∧ Named name) ∧ ∀ e ∈ value, e.Clean
  | .goto target => Flat target
  | .messageBox message => message.Clean
  | .unsupported source | .untranslated source => Flat source
  | .withObject e | .ifBlock e | .elseIf e | .whileLoop e | .select e | .returnValue e => e.Clean
  | .forLoop counter start stop step =>
    Flat counter ∧ start.Clean ∧ stop.Clean ∧ ∀ e ∈ step, e.Clean
  | .forEach counter collection => Flat counter ∧ collection.Clean
  | .doLoop test | .loopEnd test => test.Clean
  | .caseOf values => ∀ v ∈ values, v.Clean
  | .board _ arguments | .draw _ arguments => ∀ e ∈ arguments, e.Clean
  | .sprite _ object arguments =>
    (∀ c ∈ object.toList, isNameChar c = true) ∧ ∀ e ∈ arguments, e.Clean
  | .randomize seed => ∀ e ∈ seed, e.Clean
  | .call name arguments =>
    (Flat name ∧ Named name ∧ '(' ∉ name.toList) ∧ ∀ e ∈ arguments, e.Clean
  | .assign target value => (Flat target ∧ Named target) ∧ value.Clean
  | .optionBase _ | .optionExplicit | .procedureEnd _ | .typeEnd | .enumEnd | .exitLoop
  | .exitProcedure | .continueLoop | .inputBox | .endWith | .clock _ | .elseBlock | .endIf
  | .next | .wend | .caseElse | .endSelect | .doEvents => True

section

variable {line : String} (tokens : ∀ t ∈ Token.ofLine line, t.Clean)

include tokens

theorem WordOf.clean {name : String} (word : WordOf line name) : Flat name ∧ Named name := by
  obtain ⟨t, mem, isWord, rfl⟩ := word
  exact ⟨(tokens t mem).text, (tokens t mem).named isWord⟩

theorem Expr.From.clean {e : Expr} (here : e.From line) : e.Clean := by
  obtain ⟨ts, inside, -, rfl⟩ := here
  exact Expr.clean_ofText (Token.flat_slice fun t mem => tokens t (inside.subset mem))

theorem clean_joined {parts : List Token} (words : ∀ t ∈ parts, t ∈ Token.ofLine line)
    {soFar : String} (start : Flat soFar ∧ Named soFar) :
    Flat (parts.foldl (fun text t => text ++ "::" ++ t.text) soFar) ∧
      Named (parts.foldl (fun text t => text ++ "::" ++ t.text) soFar) := by
  induction parts generalizing soFar with
  | nil => exact start
  | cons t parts ih =>
    obtain ⟨here, later⟩ := List.forall_mem_cons.1 words
    refine ih later ⟨?_, named_append _ (named_append _ start.2)⟩
    simp only [flat_append]
    exact ⟨⟨start.1, flat_text rfl⟩, (tokens t here).text⟩

theorem TypeRef.From.clean {type : TypeRef} (here : type.From line) : type.Clean := by
  obtain ⟨first, parts, words, name⟩ := here
  obtain ⟨⟨mem, word⟩, later⟩ := List.forall_mem_cons.1 words
  rw [TypeRef.Clean, name]
  exact clean_joined tokens (fun t inside => (later t inside).1)
    ⟨(tokens first mem).text, (tokens first mem).named word⟩

theorem Declaration.From.clean {d : Declaration} (here : d.From line) : d.Clean where
  name := (here.name.clean tokens).1
  dimensions e mem := (here.dimensions e mem).clean tokens
  type t mem := (here.type t mem).clean tokens
  initial e mem := (here.initial e mem).clean tokens

theorem ArrayLiteral.From.clean {a : ArrayLiteral} (here : a.From line) : a.Clean where
  name := (here.name.clean tokens).1
  type := here.type.clean tokens
  elements e mem := (here.elements e mem).clean tokens

theorem Parameter.From.clean {p : Parameter} (here : p.From line) : p.Clean where
  name := (here.name.clean tokens).1
  type t mem := (here.type t mem).clean tokens
  initial e mem := (here.initial e mem).clean tokens

theorem ProcedureHeader.From.clean {h : ProcedureHeader} (here : h.From line) : h.Clean where
  name := (here.name.clean tokens).1
  parameters p mem := (here.parameters p mem).clean tokens
  result t mem := (here.result t mem).clean tokens

theorem LoopTest.From.clean {test : LoopTest} (here : test.From line) : test.Clean := by
  cases test with
  | always => trivial
  | whileTrue c => exact Expr.From.clean tokens here
  | untilTrue c => exact Expr.From.clean tokens here

theorem CaseValue.From.clean {v : CaseValue} (here : v.From line) : v.Clean := by
  cases v with
  | value v => exact Expr.From.clean tokens here
  | range low high => exact ⟨here.1.clean tokens, here.2.clean tokens⟩
  | comparison operator v =>
    obtain ⟨⟨t, mem, rfl⟩, value⟩ := here
    exact ⟨(tokens t mem).text, value.clean tokens⟩

end

namespace Token

theorem noParen_of_isPath {t : Token} (clean : t.Clean) (path : t.IsPath) :
    '(' ∉ t.text.toList := by
  intro mem
  rcases path with word | member
  · rcases (clean.wordText word).chars '(' mem with name | dollar
    · exact absurd name (by decide)
    · exact absurd dollar (by decide)
  · have lexeme := clean.lexeme
    unfold TokenKind.isMember at member
    split at member
    case h_4 => simp at member
    all_goals
      rename_i same
      rw [same] at lexeme
      rw [show t.text.toList = _ from lexeme] at mem
      exact absurd mem (by decide)

theorem noParen_slice {ts : List Token} (clean : ∀ t ∈ ts, t.Clean ∧ t.IsPath) :
    '(' ∉ (slice ts).toList := by
  have noGap : ∀ t ∈ ts, '(' ∉ t.gap.toList := fun t mem inside =>
    absurd ((clean t mem).1.white '(' inside) (by decide)
  have noText : ∀ t ∈ ts, '(' ∉ t.text.toList := fun t mem =>
    noParen_of_isPath (clean t mem).1 (clean t mem).2
  cases ts with
  | nil => simp [slice]
  | cons t rest =>
    simp only [slice, String.toList_append, List.mem_append, String.toList_join,
      List.mem_flatMap, List.mem_map, not_or, not_exists]
    refine ⟨noText t List.mem_cons_self, ?_⟩
    rintro part ⟨⟨u, mem, rfl⟩, inside⟩
    simp only [String.toList_append, List.mem_append] at inside
    rcases inside with gap | text
    · exact noGap u (List.mem_cons_of_mem _ mem) gap
    · exact noText u (List.mem_cons_of_mem _ mem) text

end Token

theorem Action.From.clean {line : String} {a : Action} (flat : Flat line) (here : a.From line)
    (leads : ∀ first rest, Token.ofLine line = first :: rest → first.isWord = true →
      LeadsCode (String.ofList (dropBlanks line.toList))) : a.Clean := by
  have clean : ∀ t ∈ Token.ofLine line, t.Clean := fun t mem => Token.clean_of_mem_ofLine flat mem
  have exprs {es : List Expr} (all : ∀ e ∈ es, e.From line) : ∀ e ∈ es, e.Clean :=
    fun e mem => (all e mem).clean clean
  have expr? {e? : Option Expr} (all : ∀ e ∈ e?, e.From line) : ∀ e ∈ e?, e.Clean :=
    fun e mem => (all e mem).clean clean
  cases a with
  | label name => exact WordOf.clean clean here
  | typeStart name | enumStart name => exact (WordOf.clean clean here).1
  | includeFile target =>
    obtain ⟨ts, inside, rfl⟩ := here
    exact flat_trim (Token.flat_slice fun t mem => clean t (inside mem))
  | procedureStart header => exact ProcedureHeader.From.clean clean here
  | malformedHeader source =>
    obtain ⟨rfl, first, rest, whole, word⟩ := here
    exact ⟨flat, leads first rest whole word⟩
  | const name value => exact ⟨(here.1.clean clean).1, here.2.clean clean⟩
  | arrayLiteral literal => exact ArrayLiteral.From.clean clean here
  | dim ds | static ds => exact fun d mem => (here.2 d mem).clean clean
  | typeField field => exact Declaration.From.clean clean here
  | enumMember name value => exact ⟨here.1.clean clean, expr? here.2⟩
  | goto target =>
    obtain ⟨t, mem, rfl⟩ := here
    exact (clean t mem).text
  | unsupported source =>
    rcases here with rfl | rfl
    · exact flat
    · exact flat_text rfl
  | untranslated source => exact here ▸ flat
  | messageBox e | withObject e | ifBlock e | elseIf e | whileLoop e | select e
  | returnValue e => exact Expr.From.clean clean here
  | forLoop counter start stop step =>
    exact ⟨(here.1.clean clean).1, here.2.1.clean clean, here.2.2.1.clean clean, expr? here.2.2.2⟩
  | forEach counter collection => exact ⟨(here.1.clean clean).1, here.2.clean clean⟩
  | doLoop test | loopEnd test => exact LoopTest.From.clean clean here
  | caseOf values => exact fun v mem => (here.2 v mem).clean clean
  | board function arguments | draw command arguments => exact exprs here.2
  | sprite command object arguments => exact ⟨here.1, exprs here.2.2⟩
  | randomize seed => exact expr? here
  | call name arguments =>
    obtain ⟨⟨first, members, word, path, inside, rfl⟩, all⟩ := here
    have whole : ∀ t ∈ first :: members, t.Clean ∧ t.IsPath := fun t mem =>
      ⟨clean t (inside mem), (List.forall_mem_cons.2 ⟨.inl word, path⟩) t mem⟩
    have named : Named (Token.slice (first :: members)) :=
      named_append _ ((clean first (inside List.mem_cons_self)).named word)
    exact ⟨⟨Token.flat_slice fun t mem => (whole t mem).1, named, Token.noParen_slice whole⟩,
      exprs all⟩
  | assign target value =>
    obtain ⟨⟨first, rest, word, inside, rfl⟩, valueFrom⟩ := here
    have named : Named (Token.slice (first :: rest)) :=
      named_append _ ((clean first (inside List.mem_cons_self)).named word)
    exact ⟨⟨Token.flat_slice fun t mem => clean t (inside mem), named⟩, valueFrom.clean clean⟩
  | optionBase | optionExplicit | procedureEnd | typeEnd | enumEnd | exitLoop | exitProcedure
  | continueLoop | inputBox | endWith | clock | elseBlock | endIf | next | wend | caseElse
  | endSelect | doEvents => trivial

end BasicSketch
