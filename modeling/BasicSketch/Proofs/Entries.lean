import BasicSketch.Proofs.ProcedureHeads

set_option autoImplicit false

/-! What is declared at each moment. -/

namespace BasicSketch

open Text SketchLine Sketch

inductive Declarer where
  | dim | static | const | array | hoist
  deriving DecidableEq

/-- A declaration that is written or hoisted. -/
structure NameEntry where
  declarer : Declarer
  name : String
  text : String
  /-- The body in which it is seen; outside of all bodies for a global. -/
  home : Home
  captured : Bool

namespace NameEntry

def isWritten (e : NameEntry) : Bool := e.declarer != .hoist && !e.captured

def isHoisted (e : NameEntry) : Bool := e.declarer == .hoist

/-- The name must be none of a global: it becomes one, or it is in a `Dim` of `setup` or `loop`. -/
def isShared (e : NameEntry) : Bool :=
  e.home.scope == .global || e.declarer == .dim && e.home.scope != .procedure

end NameEntry

def Declared.entry (e : Declared) (declarer : Declarer) (captured : Bool) : NameEntry :=
  { declarer, name := e.name, text := e.text, home := e.home, captured }

namespace Moment

/-- A body begins. The bodies are numbered by these moments. -/
def opens (m : Moment) : Bool :=
  match m.deed with
  | .statement (.plain _ (.procedureStart _)) | .statement (.every ..) => true
  | _ => false

/-- The names that the body gets from its header. -/
def brings (m : Moment) : List String :=
  match m.deed with
  | .statement (.plain _ (.procedureStart h)) => h.name :: h.parameters.map Parameter.name
  | _ => []

def assigns (m : Moment) : List String :=
  match m.deed with
  | .statement (.plain _ (.assign x v)) => if isPlainName x && !constructs v then [x] else []
  | _ => []

def hoists (m : Moment) : List String := m.assigns.filter fun x => !m.sketch.isDeclared x

/-- The declarations that are written where the statement stands. -/
def writes (m : Moment) : List Declared := m.declared.filter (·.home == m.home)

def entries (m : Moment) : List NameEntry :=
  let captured := m.sketch.capture.isSome
  match m.deed with
  | .statement (.plain _ (.const name value)) =>
    let text := m.sketch.constText name value
    if m.sketch.isGlobal name then []
    else [{ declarer := .const, name, text, home := .outside, captured }]
  | .statement (.plain _ (.arrayLiteral _)) => m.declared.map (·.entry .array captured)
  | .statement (.plain _ (.assign ..)) =>
    if m.home.scope = .procedure then
      m.hoists.map fun name =>
        { declarer := .hoist, name, text := s!"float {name} = 0;", home := m.home,
          captured := false }
    else []
  | .declares isStatic _ => m.declared.map (·.entry (if isStatic then .static else .dim) captured)
  | _ => []

theorem assigns_le (m : Moment) : m.assigns = [] ∨ ∃ x, m.assigns = [x] := by
  unfold assigns
  split
  · split
    · exact Or.inr ⟨_, rfl⟩
    · exact Or.inl rfl
  · exact Or.inl rfl

theorem hoists_le (m : Moment) : m.hoists = [] ∨ ∃ x, m.hoists = [x] := by
  unfold hoists
  rcases m.assigns_le with absent | ⟨x, one⟩
  · exact Or.inl (by simp [absent])
  · cases declared : m.sketch.isDeclared x <;> simp [one, declared]

/-- A moment declares one name at most, as a global or where it stands. -/
theorem entries_le (m : Moment) :
    m.entries = [] ∨ ∃ e, m.entries = [e] ∧ (e.home = .outside ∨ e.home = m.home) := by
  unfold entries
  dsimp only
  split
  · split
    · exact Or.inl rfl
    · exact Or.inr ⟨_, rfl, Or.inl rfl⟩
  · rename_i a deed
    simp only [declared, deed, actionDeclared]
    split
    · exact Or.inl rfl
    · refine Or.inr ⟨_, rfl, ?_⟩
      cases constant : a.constant <;> simp [Declared.entry, literalDeclared, constant]
  · split
    · rcases m.hoists_le with absent | ⟨x, one⟩
      · exact Or.inl (by simp [absent])
      · rw [one]
        exact Or.inr ⟨_, rfl, Or.inr rfl⟩
    · exact Or.inl rfl
  · rename_i isStatic d deed
    have declared : m.declared = if m.sketch.skips isStatic d then []
        else [m.sketch.variableDeclared m.home isStatic d] := by
      simp only [declared, deed]
    rw [declared]
    cases m.sketch.skips isStatic d with
    | true => exact Or.inl rfl
    | false => exact Or.inr ⟨_, rfl, Or.inr rfl⟩
  · exact Or.inl rfl

theorem pairwise_entries (m : Moment) (R : NameEntry → NameEntry → Prop) :
    m.entries.Pairwise R := by
  rcases m.entries_le with absent | ⟨e, one, -⟩
  · rw [absent]
    exact List.Pairwise.nil
  · rw [one]
    exact List.pairwise_singleton _ _

theorem home_entry {m : Moment} {e : NameEntry} (mem : e ∈ m.entries) :
    e.home = .outside ∨ e.home = m.home := by
  rcases m.entries_le with absent | ⟨e', one, home⟩
  · simp [absent] at mem
  · obtain rfl : e = e' := by simpa [one] using mem
    exact home

theorem home_of_inside {m : Moment} {e : NameEntry} (mem : e ∈ m.entries)
    (inside : e.home.scope ≠ .global) : e.home = m.home :=
  (home_entry mem).resolve_left fun outside => inside (by rw [outside]; rfl)

theorem hoisted_declared {declarer : Declarer} (other : declarer ≠ .hoist) (captured : Bool)
    (ds : List Declared) :
    (ds.map (·.entry declarer captured)).filter NameEntry.isHoisted = [] := by
  refine List.filter_eq_nil_iff.2 fun e mem => ?_
  obtain ⟨d, -, rfl⟩ := List.mem_map.1 mem
  simp [Declared.entry, NameEntry.isHoisted, other]

/-- What is hoisted at a moment is hoisted in its body. -/
theorem hoisted_entries (m : Moment) :
    m.entries.filter NameEntry.isHoisted =
      if m.home.scope = .procedure then
        m.hoists.map fun name =>
          { declarer := .hoist, name, text := s!"float {name} = 0;", home := m.home,
            captured := false }
      else [] := by
  obtain ⟨home, s, deed⟩ := m
  cases deed with
  | statement st =>
    cases st with
    | plain n a =>
      cases a with
      | const name value =>
        cases known : s.isGlobal name <;>
          simp [entries, known, NameEntry.isHoisted, hoists, assigns]
      | arrayLiteral a => simp [entries, hoisted_declared, hoists, assigns]
      | assign x v =>
        by_cases inside : home.scope = .procedure
        · simp [entries, inside, NameEntry.isHoisted, Function.comp_def, List.filter_map]
        · simp [entries, inside]
      | _ => exact (ite_self _).symm
    | _ => exact (ite_self _).symm
  | declares isStatic d =>
    have other : (if isStatic then .static else .dim : Declarer) ≠ .hoist := by
      cases isStatic <;> simp
    exact (hoisted_declared other ..).trans (ite_self _).symm
  | _ => exact (ite_self _).symm

/-- What else is declared in a body is what is written where the moment stands. -/
theorem other_entries {m : Moment} (inside : m.home.scope = .procedure)
    (apart : ∀ home q, m.deed = .takes home q → home ≠ m.home) :
    ∃ declarer, declarer ≠ .hoist ∧
      (m.entries.filter fun e => !e.isHoisted && e.home == m.home) =
        m.writes.map (·.entry declarer m.sketch.capture.isSome) := by
  have away : Home.outside ≠ m.home := by
    rintro same
    simp [← same, Home.outside] at inside
  have declared {declarer : Declarer} (other : declarer ≠ .hoist) :
      ((m.declared.map (·.entry declarer m.sketch.capture.isSome)).filter fun e =>
        !e.isHoisted && e.home == m.home) =
          m.writes.map (·.entry declarer m.sketch.capture.isSome) := by
    rw [List.filter_map, writes]
    congr 2
    funext d
    simp [Declared.entry, NameEntry.isHoisted, other]
  obtain ⟨home, s, deed⟩ := m
  cases deed with
  | statement st =>
    cases st with
    | plain n a =>
      cases a with
      | const name value =>
        refine ⟨.const, by simp, ?_⟩
        cases known : s.isGlobal name <;>
          simp [entries, known, away, writes, Moment.declared, actionDeclared]
      | arrayLiteral a => exact ⟨.array, by simp, declared (by simp)⟩
      | assign x v =>
        refine ⟨.dim, by simp, ?_⟩
        have within : home.scope = .procedure := inside
        simp [entries, within, List.filter_map, Function.comp_def, NameEntry.isHoisted, writes,
          Moment.declared, actionDeclared]
      | _ => exact ⟨.dim, by simp, rfl⟩
    | _ => exact ⟨.dim, by simp, rfl⟩
  | declares isStatic d =>
    refine ⟨if isStatic then .static else .dim, ?_, declared ?_⟩ <;> cases isStatic <;> simp
  | takes inner q =>
    refine ⟨.dim, by simp, ?_⟩
    simpa [entries, writes, Moment.declared, parameterDeclared] using apart inner q rfl
  | supplies q => exact ⟨.dim, by simp, rfl⟩

end Moment

def entriesOf (home : Home) (ms : List Moment) : List NameEntry :=
  (ms.flatMap Moment.entries).filter (·.home == home)

section

variable {home : Home} {ms more : List Moment} {e : NameEntry}

theorem mem_entriesOf : e ∈ entriesOf home ms ↔ e ∈ ms.flatMap Moment.entries ∧ e.home = home := by
  simp [entriesOf]

theorem entriesOf_append :
    entriesOf home (ms ++ more) = entriesOf home ms ++ entriesOf home more := by
  rw [entriesOf, List.flatMap_append, List.filter_append, entriesOf, entriesOf]

theorem entriesOf_idle (idle : ∀ m ∈ more, m.entries = []) :
    entriesOf home (ms ++ more) = entriesOf home ms := by
  have absent : more.flatMap Moment.entries = [] := List.flatMap_eq_nil_iff.2 idle
  rw [entriesOf, List.flatMap_append, absent, List.append_nil, entriesOf]

theorem entriesOf_away (inside : home.scope ≠ .global) (away : ∀ m ∈ more, m.home ≠ home) :
    entriesOf home (ms ++ more) = entriesOf home ms := by
  have absent : entriesOf home more = [] := by
    refine List.filter_eq_nil_iff.2 fun e mem same => ?_
    obtain ⟨m, among, mem⟩ := List.mem_flatMap.1 mem
    obtain rfl : e.home = home := by simpa using same
    exact away m among (Moment.home_of_inside mem inside).symm
  rw [entriesOf_append, absent, List.append_nil]

theorem entriesOf_new {begun : Nat} (homes : ∀ m ∈ ms, m.home.number ≤ begun)
    (new : begun < home.number) : entriesOf home ms = [] := by
  refine List.filter_eq_nil_iff.2 fun e mem same => ?_
  obtain ⟨m, among, mem⟩ := List.mem_flatMap.1 mem
  obtain rfl : e.home = home := by simpa using same
  rcases Moment.home_entry mem with outside | here
  · rw [outside] at new
    exact absurd new (Nat.not_lt_zero _)
  · exact absurd (homes m among) (Nat.not_le.2 (here ▸ new))

end

/-- What is done at a moment, from its sketch to `t`. -/
structure Enacts (m : Moment) (t : Sketch) : Prop where
  unshared : ∀ e ∈ m.entries, e.isShared = true → m.sketch.isGlobal e.name = false
  fresh : ∀ e ∈ m.entries, e.home.scope ≠ .global → lower e.name ∉ m.sketch.localNames
  localNames : m.home.scope ≠ .global → ∀ w, w ∈ t.localNames ↔
    w ∈ m.sketch.localNames ∨ ∃ e ∈ m.entries, e.home = m.home ∧ lower e.name = w
  title : t.open?.map Procedure.title = m.sketch.open?.map Procedure.title
  hoisted : t.open?.map Procedure.hoisted = m.sketch.open?.map
    (·.hoisted ++ ((entriesOf m.home [m]).filter NameEntry.isHoisted).map NameEntry.name)
  declared : ∀ b, declarations (t.buffer b) = declarations (m.sketch.buffer b) ++
    (m.entries.filter fun e => e.isWritten && e.home.scope == b).map NameEntry.text

namespace Sketch

variable {s : Sketch} {name : String}

theorem declaresHere_inside (inside : s.scope ≠ .global) :
    s.declaresHere name = s.localNames.contains (lower name) := by
  unfold declaresHere
  cases scope : s.scope with
  | global => exact absurd scope inside
  | _ => rfl

theorem declaresHere_outside (outside : s.scope = .global) :
    s.declaresHere name = s.isGlobal name := by
  rw [declaresHere, outside]
  rfl

theorem mem_localNames_declare {w : String} (inside : s.scope ≠ .global) (name : String) :
    w ∈ (s.declare name).localNames ↔ w ∈ s.localNames ∨ lower name = w := by
  cases here : s.declaresHere name with
  | false =>
    rw [declaresHere_inside inside] at here
    rw [declare_local inside (by simpa using here)]
    simp [eq_comm]
  | true =>
    have same : (s.declare name).localNames = s.localNames := by
      unfold declare
      cases scope : s.scope with
      | global => exact absurd scope inside
      | _ => exact congrArg localNames (if_pos here)
    rw [declaresHere_inside inside, List.contains_iff_mem] at here
    rw [same]
    exact ⟨Or.inl, fun either => either.elim id fun same => same ▸ here⟩

end Sketch

namespace Enacts

variable {m : Moment} {t : Sketch}

theorem nothing (absent : m.entries = []) (localNames : t.localNames = m.sketch.localNames)
    (heading : t.open?.map Procedure.heading = m.sketch.open?.map Procedure.heading)
    (declared : ∀ b, declarations (t.buffer b) = declarations (m.sketch.buffer b)) :
    Enacts m t := by
  obtain ⟨title, hoisted⟩ := Procedure.title_of_heading heading
  exact
    { unshared := by simp [absent]
      fresh := by simp [absent]
      localNames := by simp [absent, localNames]
      title := title
      hoisted := by simpa [entriesOf, absent] using hoisted
      declared := by simpa [absent] using declared }

theorem of_keeps (keeps : Keeps m.sketch t) (absent : m.entries = []) : Enacts m t :=
  nothing absent keeps.localNames keeps.heading keeps.declared

theorem keeps {u : Sketch} (enacts : Enacts m t) (keeps : Keeps t u) : Enacts m u := by
  obtain ⟨title, hoisted⟩ := Procedure.title_of_heading keeps.heading
  exact
    { enacts with
      localNames := by rw [keeps.localNames]; exact enacts.localNames
      title := title.trans enacts.title
      hoisted := hoisted.trans enacts.hoisted
      declared := fun b => (keeps.declared b).trans (enacts.declared b) }

variable {e : NameEntry}

theorem wrote (alone : m.entries = [e]) (own : e.isHoisted = false)
    (captured : e.captured = m.sketch.capture.isSome)
    (signed : m.sketch.capture.isSome = true ∨ m.sketch.author.any Statement.declares = true)
    (lands : m.sketch.landing e.home.scope = e.home.scope)
    (unshared : e.isShared = true → m.sketch.isGlobal e.name = false)
    (fresh : e.home.scope ≠ .global → lower e.name ∉ m.sketch.localNames) {symbols : Symbols}
    {globalNames localNames : List String} {events : List Event} {inPlace : Bool} {depth : Nat}
    (eq : t = { m.sketch with symbols, globalNames, localNames, events }.push inPlace e.home.scope
      depth e.text)
    (named : m.home.scope ≠ .global → ∀ w, w ∈ localNames ↔
      w ∈ m.sketch.localNames ∨ e.home = m.home ∧ lower e.name = w) : Enacts m t := by
  generalize noted :
    ({ m.sketch with symbols, globalNames, localNames, events } : Sketch) = u at eq
  have buffers (b : Scope) : u.buffer b = m.sketch.buffer b := by rw [← noted]; cases b <;> rfl
  have heading : t.open?.map Procedure.heading = m.sketch.open?.map Procedure.heading := by
    rw [eq, push_heading, ← noted]
  obtain ⟨title, hoisted⟩ := Procedure.title_of_heading heading
  have unhoisted : (entriesOf m.home [m]).filter NameEntry.isHoisted = [] := by
    refine List.filter_eq_nil_iff.2 fun e' mem => ?_
    obtain rfl : e' = e := by simpa [alone] using (mem_entriesOf.1 mem).1
    simp [own]
  refine ⟨by simpa [alone] using unshared, by simpa [alone] using fresh, fun inside w => ?_, title,
    by simpa [unhoisted] using hoisted, fun b => ?_⟩
  · rw [eq, (names_push ..).2, ← noted]
    simpa [alone] using named inside w
  · rw [eq, alone]
    cases capturing : m.sketch.capture with
    | some texts =>
      have unwritten : e.isWritten = false := by simp [NameEntry.isWritten, captured, capturing]
      rw [buffer_push_captured _ _ _ _ _ (by simp [← noted, capturing]), buffers]
      simp [unwritten]
    | none =>
      have written : e.isWritten = true := by
        simpa [NameEntry.isWritten, NameEntry.isHoisted, captured, capturing] using own
      have author : u.author.any Statement.declares = true := by
        rw [← noted]
        exact signed.resolve_left (by simp [capturing])
      have landing : u.landing e.home.scope = e.home.scope := by rw [← noted]; exact lands
      rw [buffer_push _ _ _ _ _ (by rw [← noted]; exact capturing), declarations_append, buffers,
        landing]
      by_cases here : b = e.home.scope
      · rw [if_pos here, declarations_pushed, author]
        simp [written, here]
      · rw [if_neg here]
        simp [Ne.symm here, declarations]

section

variable {s : Sketch} {p : Position} {d : Deed} {n : Nat}

theorem emitsGlobal (alone : Moment.entries ⟨p.home, s, d⟩ = [e]) (own : e.isHoisted = false)
    (captured : e.captured = s.capture.isSome) (home : e.home = .outside)
    (signed : s.capture.isSome = true ∨ s.author.any Statement.declares = true)
    (fresh : s.isGlobal e.name = false) {symbols : Symbols}
    (eq : t = { s.declareGlobal e.name with symbols }.emitGlobal e.text) :
    Enacts ⟨p.home, s, d⟩ t := by
  obtain ⟨globalNames, declared⟩ := declareGlobal_frame s e.name
  have outside : e.home.scope = .global := by rw [home]; rfl
  refine @wrote _ t e alone own captured signed (by rw [outside]; rfl) (fun _ => fresh)
    (fun inside => absurd outside inside) symbols globalNames s.localNames s.events false 0 ?_
    fun inside w => ?_
  · rw [eq, declared, outside]
    rfl
  · have away : e.home ≠ p.home := fun here => inside (here ▸ outside)
    simp [away]

theorem emitConst (name : String) (value : Expr)
    (signed : s.capture.isSome = true ∨ s.author.any Statement.declares = true) :
    Enacts ⟨p.home, s, .statement (.plain n (.const name value))⟩ (s.emitConst name value) := by
  obtain ⟨events, -, eq⟩ := emitConst_eq s name value
  have entries : Moment.entries ⟨p.home, s, .statement (.plain n (.const name value))⟩ =
    if s.isGlobal name then [] else [{
      declarer := .const
      name
      text := s.constText name value
      home := .outside
      captured := s.capture.isSome }] := rfl
  cases known : s.isGlobal name with
  | true =>
    rw [known, if_pos rfl] at eq entries
    rw [eq]
    exact of_keeps (.note s s.symbols s.includes s.sprites s.blocks s.everyCount events) entries
  | false =>
    rw [known, if_neg Bool.false_ne_true] at eq entries
    exact emitsGlobal entries rfl rfl rfl signed known eq

variable (fits : Fits p s)
include fits

theorem emits (alone : Moment.entries ⟨p.home, s, d⟩ = [e]) (own : e.isHoisted = false)
    (captured : e.captured = s.capture.isSome) (home : e.home = p.home)
    (signed : s.capture.isSome = true ∨ s.author.any Statement.declares = true)
    (unshared : e.isShared = true → s.isGlobal e.name = false)
    (fresh : s.declaresHere e.name = false) {symbols : Symbols} {events : List Event}
    (eq : t = { s.declare e.name with symbols, events }.emit e.text) :
    Enacts ⟨p.home, s, d⟩ t := by
  obtain ⟨globalNames, localNames, declared⟩ := declare_frame s e.name
  have scope : s.scope = e.home.scope := by rw [home, fits.scope]
  refine @wrote _ t e alone own captured signed ?_ unshared (fun inside => ?_) symbols globalNames
    localNames events true s.depth ?_ fun inside w => ?_
  · rw [← scope]
    exact fits.landing.trans fits.scope.symm
  · rw [declaresHere_inside (scope ▸ inside)] at fresh
    simpa using fresh
  · rw [eq, declared, ← scope]
    rfl
  · have names := @mem_localNames_declare s w (fits.scope ▸ inside) e.name
    rw [declared] at names
    simpa [home] using names

theorem emitDeclaration (isStatic : Bool) (d : Declaration)
    (signed : s.capture.isSome = true ∨ s.author.any Statement.declares = true) :
    Enacts ⟨p.home, s, .declares isStatic d⟩ (s.emitDeclaration isStatic d) := by
  obtain ⟨events, -, eq⟩ := emitDeclaration_eq s isStatic d
  have entries : Moment.entries ⟨p.home, s, .declares isStatic d⟩ =
    (if s.skips isStatic d then [] else [s.variableDeclared p.home isStatic d]).map
      (·.entry (if isStatic then .static else .dim) s.capture.isSome) := rfl
  cases skips : s.skips isStatic d with
  | true =>
    rw [skips, if_pos rfl] at eq entries
    rw [eq]
    exact of_keeps (.note s s.symbols s.includes s.sprites s.blocks s.everyCount events) entries
  | false =>
    rw [skips, if_neg Bool.false_ne_true] at eq entries
    unfold Sketch.skips at skips
    obtain ⟨unshared, fresh⟩ := Bool.or_eq_false_iff.1 skips
    refine emits fits entries (by cases isStatic <;> rfl) rfl rfl signed (fun shared => ?_) fresh eq
    -- a `Dim` in `setup` or `loop` takes a global that is there
    have scope : p.home.scope = s.scope := fits.scope.symm
    by_cases outside : s.scope = .global
    · rw [← declaresHere_outside outside]
      exact fresh
    · cases isStatic with
      | true =>
        simp [NameEntry.isShared, Declared.entry, variableDeclared, scope, outside] at shared
      | false =>
        have inside : s.scope ≠ .procedure := by
          simpa [NameEntry.isShared, Declared.entry, variableDeclared, scope, outside] using shared
        have routine : (s.scope == .setup || s.scope == .loop) = true := by
          revert outside inside
          cases s.scope <;> simp
        have absent : s.isGlobal d.name = false := by simpa [routine] using unshared
        exact absent

theorem emitArrayLiteral (a : ArrayLiteral)
    (signed : s.capture.isSome = true ∨ s.author.any Statement.declares = true) :
    Enacts ⟨p.home, s, .statement (.plain n (.arrayLiteral a))⟩ (s.emitArrayLiteral a) := by
  obtain ⟨events, -, eq⟩ := emitArrayLiteral_eq s a
  have entries : Moment.entries ⟨p.home, s, .statement (.plain n (.arrayLiteral a))⟩ =
    (if s.skipsLiteral a then [] else [s.literalDeclared p.home a]).map
      (·.entry .array s.capture.isSome) := rfl
  cases skips : s.skipsLiteral a with
  | true =>
    rw [skips, if_pos rfl] at eq entries
    rw [eq]
    exact of_keeps (.note s s.symbols s.includes s.sprites s.blocks s.everyCount events) entries
  | false =>
    rw [skips, if_neg Bool.false_ne_true] at eq entries
    unfold skipsLiteral at skips
    cases constant : a.constant with
    | true =>
      rw [constant, if_pos rfl] at skips
      simp only [constant, if_true] at eq
      have home : (s.literalDeclared p.home a).home = .outside := by
        simp [literalDeclared, constant]
      have text : (s.literalDeclared p.home a).text = "const " ++ s.literalText a := by
        simp only [literalDeclared, constant]
        rfl
      rw [← text] at eq
      exact emitsGlobal entries rfl rfl home signed skips eq
    | false =>
      rw [constant, if_neg Bool.false_ne_true] at skips
      simp only [constant, Bool.false_eq_true, if_false] at eq
      have home : (s.literalDeclared p.home a).home = p.home := by simp [literalDeclared, constant]
      have text : (s.literalDeclared p.home a).text = s.literalText a := by
        simp only [literalDeclared, constant]
        exact String.empty_append
      rw [← text] at eq
      refine emits fits entries rfl rfl home signed (fun shared => ?_) skips eq
      have outside : s.scope = .global := by
        simpa [NameEntry.isShared, Declared.entry, home, ← fits.scope] using shared
      rw [← declaresHere_outside outside]
      exact skips

theorem hoist {x : String} {v : Expr} :
    Enacts ⟨p.home, s, .statement (.plain n (.assign x v))⟩
      (if isPlainName x && !constructs v then s.hoist x else s) := by
  let m : Moment := ⟨p.home, s, .statement (.plain n (.assign x v))⟩
  have entries : m.entries = if p.home.scope = .procedure then m.hoists.map fun name =>
      { declarer := .hoist, name, text := s!"float {name} = 0;", home := p.home, captured := false }
      else [] := rfl
  have same (absent : m.entries = []) : Enacts m s := nothing absent rfl rfl fun _ => rfl
  cases plain : isPlainName x && !constructs v with
  | false => exact same (by simp [entries, Moment.hoists, Moment.assigns, m, plain])
  | true =>
    rw [if_pos rfl]
    by_cases inside : s.scope = .procedure
    · obtain ⟨q, opened⟩ := Option.isSome_iff_exists.1 (fits.opened.1 inside)
      cases declared : s.isDeclared x with
      | true =>
        rw [hoist_known (Or.inr declared)]
        exact same (by simp [entries, Moment.hoists, Moment.assigns, m, plain, declared])
      | false =>
        have within : p.home.scope = .procedure := fits.scope ▸ inside
        have one : m.hoists = [x] := by
          simp [Moment.hoists, Moment.assigns, m, plain, declared]
        rw [one, if_pos within, List.map_singleton] at entries
        have unseen : lower x ∉ s.localNames := by
          simpa using (Bool.or_eq_false_iff.1 declared).1
        rw [hoist_fresh inside opened declared]
        exact
          { unshared := by simp [m, entries, NameEntry.isShared, within]
            fresh := by simpa [m, entries] using fun _ => unseen
            localNames := fun _ w => by simp [m, entries, eq_comm]
            title := by simp [opened, Procedure.title]
            hoisted := by simp [m, opened, entriesOf, entries, NameEntry.isHoisted]
            declared := fun b => by
              cases b <;> simp [m, buffer, opened, entries, NameEntry.isWritten] }
    · rw [hoist_known (Or.inl inside)]
      exact same (by rw [entries, if_neg (fits.scope ▸ inside)])

theorem perform {a : Action} (whole : a.isParted = false) (stays : ∀ kind, a ≠ .procedureEnd kind)
    (signed : s.capture.isSome = true ∨ s.author = some (.plain n a)) :
    Enacts ⟨p.home, s, .statement (.plain n a)⟩ (s.perform a) := by
  have quiet (other : a.declares = false) : s.DeclaresNothing :=
    signed.imp_right fun author => by simp [author, Statement.declares, other]
  have declares (isDeclaration : a.declares = true) :
      s.capture.isSome = true ∨ s.author.any Statement.declares = true :=
    signed.imp_right fun author => by simp [author, Statement.declares, isDeclaration]
  cases a with
  | const name value => exact emitConst name value (declares rfl)
  | arrayLiteral literal => exact emitArrayLiteral fits literal (declares rfl)
  | assign x v =>
    refine (hoist fits).keeps (Chores.keeps (.emit _ _) ?_)
    have appends : Appends s (if isPlainName x && !constructs v then s.hoist x else s) := by
      split
      · exact .hoist s x
      · exact .refl s
    rw [DeclaresNothing, appends.capture, appends.author]
    exact quiet rfl
  | procedureEnd kind => exact absurd rfl (stays kind)
  | dim | static | procedureStart => cases whole
  | _ => exact of_keeps (Chores.keeps (.perform s rfl) (quiet rfl)) rfl

end

end Enacts

end BasicSketch
