import BasicSketch.Proofs.ActionText

set_option autoImplicit false

/-! How statements write. -/

namespace BasicSketch

open Text

def Event.isMismatch : Event → Bool
  | .mismatchedClose .. => true
  | _ => false

namespace SketchLine

def origin : SketchLine → Origin
  | .marker origin _ _ | .code origin _ _ => origin

end SketchLine

namespace Procedure

def heading (p : Procedure) : String × List SketchLine × List String :=
  (p.signature, p.header, p.hoisted)

end Procedure

namespace Sketch

structure FlatNotes (s : Sketch) : Prop where
  symbols : s.symbols.Flat
  includes : ∀ t ∈ s.includes, Flat t
  hoisted : ∀ p ∈ s.open?, ∀ n ∈ p.hoisted, Flat n

/-- Where a line for a scope ends up: in the globals if no procedure is open for it. -/
def landing (s : Sketch) : Scope → Scope
  | .procedure => if s.open?.isSome then .procedure else .global
  | scope => scope

def buffer (s : Sketch) : Scope → List SketchLine
  | .global => s.globals
  | .setup => s.setup
  | .loop => s.loop
  | .procedure => (s.open?.map Procedure.body).getD []

theorem buffer_plain {s s' : Sketch} (globals : s'.globals = s.globals)
    (setup : s'.setup = s.setup) (loop : s'.loop = s.loop) (b : Scope) (plain : b ≠ .procedure) :
    s'.buffer b = s.buffer b := by
  cases b with
  | global => exact globals
  | setup => exact setup
  | loop => exact loop
  | procedure => exact absurd rfl plain

def pushed (s : Sketch) (inPlace : Bool) (scope : Scope) (depth : Nat) (text : String) :
    List SketchLine :=
  if s.marked.contains scope then [.code ⟨s.author, inPlace⟩ depth text]
  else [.marker ⟨s.author, inPlace⟩ depth s.line, .code ⟨s.author, inPlace⟩ depth text]

theorem buffer_append (s : Sketch) (scope : Scope) (lines : List SketchLine) (b : Scope) :
    (s.append scope lines).buffer b =
      s.buffer b ++ if b = s.landing scope then lines else [] := by
  cases scope <;> cases opened : s.open? <;> cases b <;> simp [append, buffer, landing, opened]

theorem append_frame (s : Sketch) (scope : Scope) (lines : List SketchLine) :
    ∃ globals setup loop open?, s.append scope lines = { s with globals, setup, loop, open? } ∧
      open?.map Procedure.heading = s.open?.map Procedure.heading := by
  unfold append
  split
  · exact ⟨_, _, _, _, rfl, rfl⟩
  · exact ⟨_, _, _, _, rfl, rfl⟩
  · rename_i p opened
    exact ⟨_, _, _, _, rfl, by simp [opened, Procedure.heading]⟩
  · exact ⟨_, _, _, _, rfl, rfl⟩

section Push

variable (s : Sketch) (inPlace : Bool) (scope : Scope) (depth : Nat) (text : String)

theorem push_captured {texts : List String} (capturing : s.capture = some texts) :
    s.push inPlace scope depth text = { s with capture := some (texts ++ [trim text]) } := by
  simp [push, capturing]

theorem push_open (writing : s.capture = none) :
    s.push inPlace scope depth text =
      { s with marked := if s.marked.contains scope then s.marked else s.marked ++ [scope] }.append
        scope (s.pushed inPlace scope depth text) := by
  unfold push pushed
  split
  · simp_all
  · simp only
    split <;> rfl

theorem push_frame :
    ∃ globals setup loop open? marked capture,
      s.push inPlace scope depth text =
        { s with globals, setup, loop, open?, marked, capture } ∧
      open?.map Procedure.heading = s.open?.map Procedure.heading ∧
      capture.isSome = s.capture.isSome := by
  cases capturing : s.capture with
  | some texts =>
    rw [push_captured s inPlace scope depth text capturing]
    exact ⟨_, _, _, _, _, _, rfl, rfl, rfl⟩
  | none =>
    rw [push_open s inPlace scope depth text capturing]
    obtain ⟨globals, setup, loop, open?, eq, same⟩ := append_frame
      { s with marked := if s.marked.contains scope then s.marked else s.marked ++ [scope] }
      scope (s.pushed inPlace scope depth text)
    rw [eq]
    exact ⟨_, _, _, _, _, s.capture, rfl, same, by simp [capturing]⟩

@[simp] theorem push_scope : (s.push inPlace scope depth text).scope = s.scope := by
  obtain ⟨_, _, _, _, _, _, eq, -⟩ := push_frame s inPlace scope depth text
  rw [eq]

@[simp] theorem push_author : (s.push inPlace scope depth text).author = s.author := by
  obtain ⟨_, _, _, _, _, _, eq, -⟩ := push_frame s inPlace scope depth text
  rw [eq]

@[simp] theorem push_symbols : (s.push inPlace scope depth text).symbols = s.symbols := by
  obtain ⟨_, _, _, _, _, _, eq, -⟩ := push_frame s inPlace scope depth text
  rw [eq]

@[simp] theorem push_procedures :
    (s.push inPlace scope depth text).procedures = s.procedures := by
  obtain ⟨_, _, _, _, _, _, eq, -⟩ := push_frame s inPlace scope depth text
  rw [eq]

@[simp] theorem push_rest :
    let t := s.push inPlace scope depth text
    t.blocks = s.blocks ∧ t.line = s.line ∧ t.events = s.events ∧ t.includes = s.includes ∧
      t.signatures = s.signatures := by
  obtain ⟨_, _, _, _, _, _, eq, -⟩ := push_frame s inPlace scope depth text
  simp [eq]

@[simp] theorem push_heading :
    (s.push inPlace scope depth text).open?.map Procedure.heading =
      s.open?.map Procedure.heading := by
  obtain ⟨_, _, _, _, _, _, eq, same, -⟩ := push_frame s inPlace scope depth text
  rw [eq]
  exact same

@[simp] theorem push_isSome_open :
    (s.push inPlace scope depth text).open?.isSome = s.open?.isSome := by
  have same := congrArg Option.isSome (push_heading s inPlace scope depth text)
  simpa only [Option.isSome_map] using same

@[simp] theorem push_isSome_capture :
    (s.push inPlace scope depth text).capture.isSome = s.capture.isSome := by
  obtain ⟨_, _, _, _, _, _, eq, -, same⟩ := push_frame s inPlace scope depth text
  rw [eq]
  exact same

@[simp] theorem push_landing (other : Scope) :
    (s.push inPlace scope depth text).landing other = s.landing other := by
  cases other <;> simp [landing]

theorem buffer_push (writing : s.capture = none) (b : Scope) :
    (s.push inPlace scope depth text).buffer b =
      s.buffer b ++ if b = s.landing scope then s.pushed inPlace scope depth text else [] := by
  rw [push_open s inPlace scope depth text writing, buffer_append]
  rfl

theorem buffer_push_captured (capturing : s.capture.isSome = true) (b : Scope) :
    (s.push inPlace scope depth text).buffer b = s.buffer b := by
  obtain ⟨texts, eq⟩ := Option.isSome_iff_exists.1 capturing
  rw [push_captured s inPlace scope depth text eq]
  rfl

theorem push_marked (writing : s.capture = none) :
    (s.push inPlace scope depth text).marked =
      if s.marked.contains scope then s.marked else s.marked ++ [scope] := by
  rw [push_open s inPlace scope depth text writing]
  obtain ⟨_, _, _, _, eq, -⟩ := append_frame
    { s with marked := if s.marked.contains scope then s.marked else s.marked ++ [scope] }
    scope (s.pushed inPlace scope depth text)
  rw [eq]

theorem push_marked_captured (capturing : s.capture.isSome = true) :
    (s.push inPlace scope depth text).marked = s.marked := by
  obtain ⟨texts, eq⟩ := Option.isSome_iff_exists.1 capturing
  rw [push_captured s inPlace scope depth text eq]

end Push

def Quiet (s s' : Sketch) : Prop :=
  ∃ new, s'.events = s.events ++ new ∧ ∀ e ∈ new, e.isMismatch = false

variable {s : Sketch}

theorem Quiet.of_eq {s' : Sketch} (same : s'.events = s.events) : Quiet s s' :=
  ⟨[], by simpa using same, by simp⟩

theorem Quiet.trans {s s' s'' : Sketch} (first : Quiet s s') (second : Quiet s' s'') :
    Quiet s s'' := by
  obtain ⟨a, eqA, quietA⟩ := first
  obtain ⟨b, eqB, quietB⟩ := second
  refine ⟨a ++ b, by rw [eqB, eqA, List.append_assoc], ?_⟩
  intro e mem
  rcases List.mem_append.1 mem with here | there
  · exact quietA e here
  · exact quietB e there

theorem leave_of_global (outside : s.scope = .global) (reason : String) : s.leave reason = s := by
  simp [leave, outside]

def begin (s : Sketch) (signature : String) : Sketch :=
  { s with
    scope := .procedure
    localNames := []
    open? := some { signature, header := [], hoisted := [], body := [] } }

def head (s : Sketch) : Sketch :=
  { s with open? := s.open?.map fun p => { p with header := p.body, body := [] } }

theorem enterProcedure_eq (s : Sketch) (signature header : String) :
    s.enterProcedure signature header =
      (((s.leave "next procedure").begin signature).push false .procedure 0 header).head := rfl

theorem declare_frame (s : Sketch) (name : String) :
    ∃ globalNames localNames, s.declare name = { s with globalNames, localNames } := by
  unfold declare declareGlobal
  repeat' split
  all_goals exact ⟨_, _, rfl⟩

theorem declarationText_frame (s : Sketch) (d : Declaration) :
    ∃ symbols, (s.declarationText d).2 = { s with symbols } := by
  unfold declarationText
  dsimp only
  repeat' split
  all_goals exact ⟨_, rfl⟩

theorem dropBlocks_frame (s : Sketch) (closer : String) :
    ∃ blocks events, s.dropBlocks closer = { s with blocks, events } := by
  unfold dropBlocks
  split
  · exact ⟨_, _, rfl⟩
  · exact ⟨_, _, rfl⟩

theorem addProcedure_frame (s : Sketch) (p : Procedure) :
    ∃ procedures signatures events,
      s.addProcedure p = { s with procedures, signatures, events } ∧
      (∀ q ∈ procedures, q ∈ s.procedures ∨ q = p) ∧
      (∀ t ∈ signatures, t ∈ s.signatures ∨ t = p.signature) ∧
      Quiet s { s with procedures, signatures, events } := by
  have listed : ∀ t ∈ (if s.signatures.contains p.signature then s.signatures
      else s.signatures ++ [p.signature]), t ∈ s.signatures ∨ t = p.signature := by
    intro t mem
    split at mem
    · exact Or.inl mem
    · simpa using mem
  unfold addProcedure
  by_cases again : s.procedures.any (·.signature == p.signature) = true
  · rw [if_pos again]
    refine ⟨_, _, _, rfl, fun q mem => ?_, listed, [_], rfl, by simp [Event.isMismatch]⟩
    rcases List.mem_append.1 mem with before | new
    · exact Or.inl (List.mem_filter.1 before).1
    · exact Or.inr (List.mem_singleton.1 new)
  · rw [if_neg again]
    exact ⟨_, _, _, rfl, by simp, listed, Quiet.of_eq rfl⟩

/-- Nothing was written: the code, the scope and the blocks are as they were. -/
structure Noted (s s' : Sketch) : Prop where
  buffer : ∀ b, s'.buffer b = s.buffer b
  heading : s'.open?.map (fun p => (p.signature, p.header)) =
    s.open?.map (fun p => (p.signature, p.header))
  procedures : s'.procedures = s.procedures
  signatures : s'.signatures = s.signatures
  blocks : s'.blocks = s.blocks
  scope : s'.scope = s.scope
  author : s'.author = s.author
  line : s'.line = s.line
  marked : s'.marked = s.marked
  capture : s'.capture = s.capture
  quiet : Quiet s s'

theorem Noted.of_names (s : Sketch) {symbols : Symbols}
    {includes sprites globalNames localNames : List String} {everyCount : Nat}
    {events : List Event} (quiet : Quiet s { s with events }) :
    Noted s { s with symbols, includes, sprites, globalNames, localNames, everyCount, events } :=
  ⟨fun b => by cases b <;> rfl, rfl, rfl, rfl, rfl, rfl, rfl, rfl, rfl, rfl, quiet⟩

theorem Noted.hoist (s : Sketch) {p : Procedure} {name : String} (opened : s.open? = some p) :
    Noted s { s with open? := some { p with hoisted := p.hoisted ++ [name] } } :=
  ⟨fun b => by cases b <;> simp [Sketch.buffer, opened], by simp [opened], rfl, rfl, rfl, rfl, rfl,
    rfl, rfl, rfl, .of_eq rfl⟩

theorem FlatNotes.push (flat : s.FlatNotes) (inPlace : Bool) (scope : Scope) (depth : Nat)
    (text : String) : (s.push inPlace scope depth text).FlatNotes := by
  refine ⟨by simpa using flat.symbols, by simpa using flat.includes, ?_⟩
  intro p mem n here
  have same := push_heading s inPlace scope depth text
  rw [show (s.push inPlace scope depth text).open? = some p from mem] at same
  obtain ⟨q, opened, eq⟩ := Option.map_eq_some_iff.1 same.symm
  refine flat.hoisted q opened n ?_
  rw [show q.hoisted = p.hoisted from congrArg (fun h => h.2.2) eq]
  exact here

variable {text : String} {e : Expr} {type : Option TypeRef}

theorem mem_rangeLabels? {low high : Expr} {labels : List String}
    (few : rangeLabels? low high = some labels) (mem : text ∈ labels) :
    ∃ n : Int, text = s!"case {n}:" := by
  simp only [rangeLabels?, Option.bind_eq_bind, Option.bind_eq_some_iff] at few
  obtain ⟨first, -, last, -, few⟩ := few
  split at few
  · obtain rfl := Option.some.inj few
    obtain ⟨k, -, rfl⟩ := List.mem_map.1 mem
    exact ⟨_, rfl⟩
  · simp at few

theorem mem_caseLabels {value : CaseValue} (mem : text ∈ s.caseLabels value) :
    match value with
    | .value v => text = s!"case {s.value v}:"
    | .range low high =>
      (∃ n : Int, text = s!"case {n}:") ∨ text = s!"case {s.value low} ... {s.value high}:"
    | .comparison operator v => text = s!"// Case Is {operator} {s.value v} (not supported)" := by
  cases value with
  | value v => exact List.mem_singleton.1 mem
  | range low high =>
    simp only [caseLabels] at mem
    cases few : rangeLabels? low high with
    | some labels =>
      rw [few] at mem
      exact Or.inl (mem_rangeLabels? few mem)
    | none =>
      rw [few] at mem
      exact Or.inr (List.mem_singleton.1 mem)
  | comparison operator v => exact List.mem_singleton.1 mem

theorem FlatNotes.value (notes : s.FlatNotes) (clean : e.Clean) : Flat (s.value e) :=
  Cpp.flat_value notes.symbols clean

theorem FlatNotes.condition (notes : s.FlatNotes) (clean : e.Clean) : Flat (s.condition e) :=
  Cpp.flat_condition notes.symbols clean

theorem primitives_spelled : ∀ entry ∈ Cpp.primitives, Flat entry.2 ∧ LeadsStatement entry.2 := by
  decide

theorem typeName_spelled {name : Option String} (clean : ∀ n ∈ name, Flat n ∧ Named n) :
    Flat (Cpp.typeName name) ∧ LeadsStatement (Cpp.typeName name) := by
  unfold Cpp.typeName
  split
  · exact ⟨flat_text rfl, leadsStatement_ofList (by decide)⟩
  · rename_i n
    cases eq : Cpp.primitives.lookup (lower n) with
    | none => exact ⟨(clean n rfl).1, leadsStatement_of_named (clean n rfl).2⟩
    | some text => exact primitives_spelled _ (Cpp.mem_of_lookup eq)

theorem typeName_map_spelled (clean : ∀ t ∈ type, t.Clean) :
    Flat (Cpp.typeName (type.map TypeRef.name)) ∧
      LeadsStatement (Cpp.typeName (type.map TypeRef.name)) := by
  apply typeName_spelled
  intro n mem
  obtain ⟨t, here, rfl⟩ := Option.map_eq_some_iff.1 mem
  exact clean t here

theorem cpp_spelled {t : TypeRef} (clean : t.Clean) : Flat t.cpp ∧ LeadsStatement t.cpp := by
  have name := @typeName_spelled (some t.name) (by simpa [TypeRef.Clean] using clean)
  simp only [TypeRef.cpp]
  split
  · exact ⟨(flat_append ..).2 ⟨name.1, flat_text rfl⟩, leadsStatement_append _ name.2⟩
  · exact name

theorem typeText_spelled (clean : ∀ t ∈ type, t.Clean) :
    Flat (typeText type) ∧ LeadsStatement (typeText type) := by
  unfold typeText
  split
  · exact cpp_spelled (clean _ rfl)
  · exact typeName_spelled (by simp)

theorem flat_initialValue (type : String) : Flat (Cpp.initialValue type) := by
  unfold Cpp.initialValue
  repeat' split
  all_goals exact flat_text rfl

theorem display_spelled :
    ∀ display : Display, Flat display.object ∧ LeadsStatement display.object := by
  intro display
  cases display <;> exact ⟨flat_text rfl, leadsStatement_ofList (by decide)⟩

theorem mem_insertSorted {t text : String} {ts : List String} (mem : t ∈ insertSorted text ts) :
    t = text ∨ t ∈ ts := by
  induction ts with
  | nil => simpa [insertSorted] using mem
  | cons first rest ih =>
    simp only [insertSorted] at mem
    split at mem
    · simpa using mem
    · split at mem
      · exact Or.inr mem
      · rcases List.mem_cons.1 mem with rfl | later
        · exact Or.inr List.mem_cons_self
        · exact (ih later).imp_right (List.mem_cons_of_mem _)

theorem isCode_call {name : String} {values : List String} (code : IsCode name)
    (flatValues : ∀ v ∈ values, Flat v) :
    IsCode (Cpp.called name values) := by
  have flatAll : Flat (", ".intercalate values) :=
    flat_intercalate (flat_text rfl) flatValues
  have opened : IsCode (name ++ "(") := code.append (flat_text rfl)
  exact (opened.append flatAll).append (flat_text rfl)

theorem isCode_called {name : String} {values : List String} (code : IsCode name)
    (flatValues : ∀ v ∈ values, Flat v) :
    IsCode (Cpp.called name values ++ ";") :=
  (isCode_call code flatValues).append (flat_text rfl)

example : Cpp.called "f" ["x"] = "f(x)" := by decide +kernel

end Sketch

end BasicSketch
