import BasicSketch.Proofs.History

set_option autoImplicit false

/-! The log of declarations. -/

namespace BasicSketch

inductive DeclaredKind where
  | single
  | parameter
  | array (bounds : List String)
  | literal (elements : List String)

structure Declared where
  name : String
  /-- The body in which it is seen; outside of all bodies for a global. -/
  home : Home
  kind : DeclaredKind
  lead : String
  type : String
  text : String

namespace Declared

def isPointer (e : Declared) : Bool :=
  match e.kind with
  | .single | .parameter =>
    (e.lead ++ e.type ++ "* " ++ e.name).toList.isPrefixOf e.text.toList
  | _ => false

def bounds? (e : Declared) : Option (List String) :=
  match e.kind with
  | .array bounds => some bounds
  | .literal elements => some [toString (elements.length - 1)]
  | _ => none

def isNamed (e : Declared) (name : String) : Bool := Text.lower e.name == Text.lower name

end Declared

/-- The declaration that a name stands for: that of the body, or else a global one. -/
def visible (log : List Declared) (home : Home) (name : String) : Option Declared :=
  (log.find? fun e => e.home == home && e.isNamed name) <|>
    log.find? fun e => e.home == .outside && e.isNamed name

namespace Sketch

def variableDeclared (s : Sketch) (home : Home) (isStatic : Bool) (d : Declaration) : Declared where
  name := d.name
  home := home
  kind := if d.isArray then .array (d.dimensions.map s.value) else .single
  lead := if isStatic then "static " else ""
  type := Cpp.typeName (d.type.map TypeRef.name)
  text := (if isStatic then "static " else "") ++ (s.declarationText d).1

def parameterDeclared (s : Sketch) (inside : Home) (p : Parameter) : Declared where
  name := p.name
  home := inside
  kind := .parameter
  lead := ""
  type := Cpp.typeName (p.type.map TypeRef.name)
  text := (s.parameterText p).1

def literalDeclared (s : Sketch) (home : Home) (a : ArrayLiteral) : Declared where
  name := a.name
  home := if a.constant then .outside else home
  kind := .literal (a.elements.map s.value)
  lead := if a.constant then "const " else ""
  type := a.type.cpp
  text :=
    let list := ", ".intercalate (a.elements.map s.value)
    (if a.constant then "const " else "") ++ s!"{a.type.cpp} {a.name}[] = \x7b{list}\x7d;"

/-- What an action declares by itself. Each variable of a `Dim` and each parameter has a moment of
its own. -/
def actionDeclared (s : Sketch) (home : Home) : Action → List Declared
  | .arrayLiteral a => if s.skipsLiteral a then [] else [s.literalDeclared home a]
  | _ => []

end Sketch

def Moment.declared (m : Moment) : List Declared :=
  match m.deed with
  | .statement (.plain _ a) => m.sketch.actionDeclared m.home a
  | .statement _ | .supplies _ => []
  | .declares isStatic d =>
    if m.sketch.skips isStatic d then [] else [m.sketch.variableDeclared m.home isStatic d]
  | .takes inside p => [m.sketch.parameterDeclared inside p]

def declaredBy (ms : List Moment) : List Declared := ms.flatMap Moment.declared

theorem declaredBy_cons (m : Moment) (ms : List Moment) :
    declaredBy (m :: ms) = m.declared ++ declaredBy ms :=
  List.flatMap_cons

structure Known where
  pointers : List String
  bounds : List (String × List String)

def Symbols.known (σ : Symbols) : Known := ⟨σ.pointers, σ.bounds⟩

namespace Known

def note (k : Known) (e : Declared) : Known where
  pointers := if e.isPointer then e.name :: k.pointers else k.pointers
  bounds :=
    match e.bounds? with
    | some bounds => (Text.lower e.name, bounds) :: k.bounds
    | none => k.bounds

def noteAll (k : Known) (log : List Declared) : Known := log.foldl note k

theorem noteAll_append (k : Known) (log more : List Declared) :
    k.noteAll (log ++ more) = (k.noteAll log).noteAll more :=
  List.foldl_append

variable {k : Known} {name : String}

variable {log : List Declared}

theorem mem_pointers :
    name ∈ (k.noteAll log).pointers ↔
      (∃ e ∈ log, e.isPointer = true ∧ e.name = name) ∨ name ∈ k.pointers := by
  induction log generalizing k with
  | nil => simp [noteAll]
  | cons e rest ih =>
    rw [noteAll, List.foldl_cons, ← noteAll, ih]
    cases pointer : e.isPointer with
    | false => simp [note, pointer]
    | true => simp [note, pointer, @eq_comm _ name, or_assoc, or_left_comm]

theorem lookup_noteAll (other : ∀ e ∈ log, e.isNamed name = true → e.bounds? = none) :
    (k.noteAll log).bounds.lookup (Text.lower name) = k.bounds.lookup (Text.lower name) := by
  induction log generalizing k with
  | nil => rfl
  | cons e rest ih =>
    rw [noteAll, List.foldl_cons, ← noteAll, ih fun e mem => other e (List.mem_cons_of_mem _ mem)]
    have first := other e List.mem_cons_self
    cases bounds : e.bounds? with
    | none => simp [note, bounds]
    | some ls =>
      have apart : (Text.lower name == Text.lower e.name) = false :=
        beq_false_of_ne fun same => by
          have array := first (beq_iff_eq.2 same.symm)
          rw [bounds] at array
          cases array
      simp [note, bounds, List.lookup_cons, apart]

theorem lookup_last {before after : List Declared} {e : Declared} {bounds : List String}
    (named : e.isNamed name = true) (array : e.bounds? = some bounds)
    (other : ∀ e ∈ after, e.isNamed name = true → e.bounds? = none) :
    (k.noteAll (before ++ e :: after)).bounds.lookup (Text.lower name) = some bounds := by
  rw [noteAll_append, noteAll, List.foldl_cons, ← noteAll, lookup_noteAll other]
  have same : Text.lower name = Text.lower e.name := (beq_iff_eq.1 named).symm
  simp [note, array, same]

end Known

namespace Sketch

def known (s : Sketch) : Known := s.symbols.known

theorem isPrefixOf_star {c : Char} (other : '*' ≠ c) (front rest name : List Char) :
    (front ++ '*' :: name).isPrefixOf (front ++ c :: rest) = false := by
  rw [Bool.eq_false_iff, ne_eq, List.isPrefixOf_iff_prefix, List.prefix_append_right_inj]
  exact fun star => other (List.cons_prefix_cons.1 star).1

variable {d : Declaration}

theorem isPointer_variableDeclared (s : Sketch) (home : Home) (isStatic : Bool)
    (one : d.isArray = false) :
    (s.variableDeclared home isStatic d).isPointer = s.declaresPointer d := by
  have kind : (s.variableDeclared home isStatic d).kind = .single := by
    simp [variableDeclared, one]
  unfold Declared.isPointer
  rw [kind]
  dsimp only [variableDeclared]
  generalize (if isStatic = true then "static " else "") = lead
  unfold declarationText
  dsimp only
  rw [one, if_neg Bool.false_ne_true]
  cases s.declaresPointer d with
  | true => simp
  | false =>
    rw [if_neg Bool.false_ne_true]
    have blank := @isPrefixOf_star ' ' (by decide)
      (lead.toList ++ (Cpp.typeName (d.type.map TypeRef.name)).toList)
    split
    · split
      · simpa using blank _ _
      · simpa using blank _ _
    · simpa using blank _ _

theorem known_declarationText (s : Sketch) (home : Home) (isStatic : Bool) (d : Declaration) :
    (s.declarationText d).2.known = s.known.note (s.variableDeclared home isStatic d) := by
  cases array : d.isArray with
  | true => simp [declarationText, array, Known.note, Declared.isPointer, Declared.bounds?,
      variableDeclared, addBounds, known, Symbols.known]
  | false =>
    have bounds : (s.variableDeclared home isStatic d).bounds? = none := by
      simp [Declared.bounds?, variableDeclared, array]
    rw [Known.note, isPointer_variableDeclared s home isStatic array, bounds]
    unfold declarationText
    dsimp only
    rw [array, if_neg Bool.false_ne_true]
    cases s.declaresPointer d with
    | true => rfl
    | false =>
      simp only [Bool.false_eq_true, if_false]
      repeat' split
      all_goals rfl

theorem emitDeclaration_declares (s : Sketch) (home : Home) (isStatic : Bool)
    (fresh : s.skips isStatic d = false) :
    (∃ symbols globalNames localNames events,
      s.emitDeclaration isStatic d = { s with symbols, globalNames, localNames, events }.emit
        (s.variableDeclared home isStatic d).text) ∧
      (s.emitDeclaration isStatic d).known =
        s.known.note (s.variableDeclared home isStatic d) := by
  obtain ⟨events, -, eq⟩ := emitDeclaration_eq s isStatic d
  obtain ⟨globalNames, localNames, declared⟩ := declare_frame s d.name
  rw [fresh, if_neg Bool.false_ne_true, declared] at eq
  refine ⟨⟨_, _, _, _, eq⟩, ?_⟩
  rw [eq, ← known_declarationText, known, known, symbols_emit]

variable {s : Sketch} {a : ArrayLiteral}

theorem known_emitDeclaration_skips {isStatic : Bool} (skips : s.skips isStatic d = true) :
    (s.emitDeclaration isStatic d).known = s.known := by
  obtain ⟨events, -, eq⟩ := emitDeclaration_eq s isStatic d
  rw [eq, if_pos skips]
  rfl

theorem isPointer_parameterDeclared (s : Sketch) (inside : Home) (p : Parameter) :
    (s.parameterDeclared inside p).isPointer = p.type.any TypeRef.pointer := by
  unfold Declared.isPointer
  dsimp only [parameterDeclared, parameterText]
  cases p.type.any TypeRef.pointer with
  | true => simp
  | false =>
    generalize Cpp.typeName _ = type
    have blank := @isPrefixOf_star ' ' (by decide) type.toList
    have reference := @isPrefixOf_star '&' (by decide) type.toList
    simp only [Bool.false_eq_true, if_false]
    split
    · simpa using blank _ _
    · split
      · simpa using reference _ _
      · simpa using blank _ _

theorem known_parameterText (s : Sketch) (inside : Home) (p : Parameter) :
    (s.parameterText p).2.2.known = s.known.note (s.parameterDeclared inside p) := by
  rw [Known.note, isPointer_parameterDeclared]
  unfold parameterText
  dsimp only
  split <;> rfl

theorem emitArrayLiteral_declares (s : Sketch) (home : Home) (fresh : s.skipsLiteral a = false) :
    (∃ symbols globalNames localNames,
      s.emitArrayLiteral a =
        if a.constant then
          { s with symbols, globalNames, localNames }.emitGlobal (s.literalDeclared home a).text
        else { s with symbols, globalNames, localNames }.emit (s.literalDeclared home a).text) ∧
      (s.emitArrayLiteral a).known = s.known.note (s.literalDeclared home a) := by
  obtain ⟨events, -, eq⟩ := emitArrayLiteral_eq s a
  obtain ⟨globalNames, global⟩ := declareGlobal_frame s a.name
  obtain ⟨globalNames', localNames, declared⟩ := declare_frame s a.name
  rw [fresh, if_neg Bool.false_ne_true, global, declared] at eq
  have learned (t : Sketch) : (t.addBounds a.name [toString (a.elements.length - 1)]).known =
      t.known.note (s.literalDeclared home a) := by
    simp [Known.note, Declared.isPointer, Declared.bounds?, literalDeclared, addBounds, known,
      Symbols.known]
  cases constant : a.constant with
  | true =>
    have text : (s.literalDeclared home a).text = "const " ++ s.literalText a := by
      simp [literalDeclared, literalText, constant]
    rw [constant, if_pos rfl, ← text] at eq
    refine ⟨⟨_, _, s.localNames, by rw [if_pos rfl]; exact eq⟩, ?_⟩
    rw [eq, known, symbols_emitGlobal]
    exact learned _
  | false =>
    have text : (s.literalDeclared home a).text = s.literalText a := by
      simp [literalDeclared, literalText, constant]
    rw [constant, if_neg Bool.false_ne_true, ← text] at eq
    refine ⟨⟨_, _, _, by rw [if_neg Bool.false_ne_true]; exact eq⟩, ?_⟩
    rw [eq, known, symbols_emit]
    exact learned _

theorem known_emitArrayLiteral_skips (skips : s.skipsLiteral a = true) :
    (s.emitArrayLiteral a).known = s.known := by
  obtain ⟨events, -, eq⟩ := emitArrayLiteral_eq s a
  rw [eq, if_pos skips]
  rfl

def noteDeclared (k : Known) (m : Moment) : Known := k.noteAll m.declared

theorem foldl_noteDeclared (k : Known) (ms : List Moment) :
    ms.foldl noteDeclared k = k.noteAll (declaredBy ms) := by
  induction ms generalizing k with
  | nil => rfl
  | cons m rest ih => rw [List.foldl_cons, ih, declaredBy_cons, Known.noteAll_append, noteDeclared]

theorem known_declares (s : Sketch) (home : Home) (isStatic : Bool) (d : Declaration) :
    (s.emitDeclaration isStatic d).known =
      noteDeclared s.known ⟨home, s, .declares isStatic d⟩ := by
  dsimp only [noteDeclared, Moment.declared]
  cases skips : s.skips isStatic d with
  | true => exact known_emitDeclaration_skips skips
  | false => exact (emitDeclaration_declares s home isStatic skips).2

theorem known_performs (s : Sketch) (home : Home) (n : Nat) {a : Action}
    (whole : a.isParted = false) :
    (s.perform a).known = noteDeclared s.known ⟨home, s, .statement (.plain n a)⟩ := by
  cases a with
  | arrayLiteral literal =>
    dsimp only [noteDeclared, Moment.declared, actionDeclared]
    cases skips : s.skipsLiteral literal with
    | true => exact known_emitArrayLiteral_skips skips
    | false => exact (emitArrayLiteral_declares s home skips).2
  | procedureEnd kind => exact congrArg Symbols.known (symbols_endProcedure s)
  | dim | static | procedureStart => cases whole
  | optionBase | includeFile => rfl
  | draw command arguments =>
    exact (congrArg Symbols.known (symbols_draw s command arguments)).trans rfl
  | sprite command sprite arguments =>
    exact (congrArg Symbols.known (symbols_sprite s command sprite arguments)).trans rfl
  | _ => exact congrArg Symbols.known (symbols_perform s rfl)

theorem log_declared : Log known noteDeclared where
  rests symbols _ := congrArg Symbols.known symbols
  silent _ _ _ st parted := by
    cases st with
    | plain n a =>
      cases a with
      | dim | static | procedureStart => rfl
      | _ => cases parted
    | _ => rfl
  performs n a _ whole := known_performs _ _ n whole
  declares isStatic d _ := known_declares _ _ isStatic d
  takes _ inside s p := known_parameterText s inside p
  supplies _ _ _ _ := rfl

theorem known_moment {options : Options} {sts : List Statement} {earlier later : List Moment}
    {m : Moment} (split : momentsOf options sts = earlier ++ m :: later) :
    m.sketch.known = Known.noteAll ⟨[], []⟩ (declaredBy earlier) :=
  (log_declared.known_at split).trans (foldl_noteDeclared _ earlier)

theorem text_parameterMoments (home inside : Home) (ps : List Parameter) :
    ∀ s : Sketch, (declaredBy (parameterMoments home inside s ps)).map Declared.text =
      (s.parameterTexts ps).2.1 := by
  induction ps with
  | nil => exact fun s => rfl
  | cons p rest ih => exact fun s => congrArg ((s.parameterText p).1 :: ·) (ih _)

end Sketch

/-- The texts of what is declared at a moment are written by then. -/
def Moment.Prints (m : Moment) : Prop :=
  match m.deed with
  | .declares isStatic d =>
    ∀ e ∈ m.declared, ∃ symbols globalNames localNames events,
      m.sketch.emitDeclaration isStatic d =
        { m.sketch with symbols, globalNames, localNames, events }.emit e.text
  | .statement (.plain _ (.arrayLiteral a)) =>
    ∀ e ∈ m.declared, ∃ symbols globalNames localNames,
      m.sketch.emitArrayLiteral a =
        if a.constant then { m.sketch with symbols, globalNames, localNames }.emitGlobal e.text
        else { m.sketch with symbols, globalNames, localNames }.emit e.text
  | .statement (.plain _ (.procedureStart h)) =>
    h.scope = .procedure → ∀ home inside, ∃ symbols signature result,
      let parameters := declaredBy (m.sketch.parameterMoments home inside h.parameters)
      let header := Cpp.called (result ++ " " ++ h.name) (parameters.map Declared.text) ++ " \x7b"
      m.sketch.procedureStart h =
        (h.name :: h.parameters.map Parameter.name).foldl Sketch.declare
          ({ m.sketch with symbols }.enterProcedure signature header)
  | _ => True

theorem Moment.prints (m : Moment) : m.Prints := by
  obtain ⟨home, s, deed⟩ := m
  cases deed with
  | takes | supplies => trivial
  | declares isStatic d =>
    intro e mem
    cases fresh : s.skips isStatic d with
    | true => simp [declared, fresh] at mem
    | false =>
      obtain rfl : e = s.variableDeclared home isStatic d := by simpa [declared, fresh] using mem
      exact (Sketch.emitDeclaration_declares s home isStatic fresh).1
  | statement st =>
    cases st with
    | inlineIf | inlineIfElse | every => trivial
    | plain n a =>
      cases a with
      | arrayLiteral literal =>
        intro e mem
        cases fresh : s.skipsLiteral literal with
        | true => simp [declared, Sketch.actionDeclared, fresh] at mem
        | false =>
          obtain rfl : e = s.literalDeclared home literal := by
            simpa [declared, Sketch.actionDeclared, fresh] using mem
          exact (Sketch.emitArrayLiteral_declares s home fresh).1
      | procedureStart h =>
        intro procedure home inside
        obtain ⟨symbols, eq, -⟩ := Sketch.parameterTexts_frame s h.parameters
        have opens : s.procedureStart h = s.openProcedure h := by
          unfold ProcedureHeader.scope at procedure
          rw [Sketch.procedureStart]
          cases setup : h.isSetup with
          | true => simp [setup] at procedure
          | false =>
            cases loop : h.isLoop with
            | true => simp [setup, loop] at procedure
            | false => rfl
        refine ⟨symbols, ?signature, ?result, ?header⟩
        case header =>
          dsimp only
          rw [Sketch.text_parameterMoments, ← eq, List.foldl_cons, List.foldl_map, opens]
          rfl
      | _ => trivial

end BasicSketch
