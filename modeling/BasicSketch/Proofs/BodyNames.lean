import BasicSketch.Proofs.Entries

set_option autoImplicit false

/-! The names of a body. -/

namespace BasicSketch

open Text SketchLine Sketch

def inBody (n : Nat) (ms : List Moment) : List Moment := ms.filter (·.home == .procedure n)

theorem inBody_append (n : Nat) (ms more : List Moment) :
    inBody n (ms ++ more) = inBody n ms ++ inBody n more :=
  List.filter_append ..

theorem opener_append {ms : List Moment} {i : Nat} {o : Moment} (more : List Moment)
    (found : (ms.filter Moment.opens)[i]? = some o) :
    ((ms ++ more).filter Moment.opens)[i]? = some o := by
  rw [List.filter_append, List.getElem?_append_left (List.getElem?_eq_some_iff.1 found).1, found]

/-- What the moments of a body have made of its procedure and its names. -/
structure Drafted (ms : List Moment) (n : Nat) (names : List String) (q : Procedure) : Prop where
  known : ∃ o, (ms.filter Moment.opens)[n - 1]? = some o ∧ o.Opens q ∧ ∀ w, w ∈ names ↔
    (∃ y ∈ o.brings, lower y = w) ∨ ∃ e ∈ entriesOf (.procedure n) ms, lower e.name = w
  hoisted : q.hoisted =
    ((entriesOf (.procedure n) ms).filter NameEntry.isHoisted).map NameEntry.name
  declared : declarations q.body =
    ((entriesOf (.procedure n) ms).filter NameEntry.isWritten).map NameEntry.text

namespace Drafted

variable {ms more : List Moment} {n : Nat} {names : List String} {q : Procedure} {m : Moment}

theorem congr (drafted : Drafted ms n names q)
    (same : entriesOf (.procedure n) (ms ++ more) = entriesOf (.procedure n) ms) :
    Drafted (ms ++ more) n names q where
  known := by
    obtain ⟨o, found, opens, known⟩ := drafted.known
    exact ⟨o, opener_append more found, opens, by rwa [same]⟩
  hoisted := by rw [same, drafted.hoisted]
  declared := by rw [same, drafted.declared]

theorem away (drafted : Drafted ms n names q) (away : ∀ m ∈ more, m.home ≠ .procedure n) :
    Drafted (ms ++ more) n names q :=
  drafted.congr (entriesOf_away (by simp [Home.procedure]) away)

theorem step (drafted : Drafted ms n m.sketch.localNames q) (home : m.home = .procedure n)
    (opened : m.sketch.open? = some q) {t : Sketch} (enacts : Enacts m t) :
    ∃ q', t.open? = some q' ∧ Drafted (ms ++ [m]) n t.localNames q' := by
  have inside : m.home.scope = .procedure := by rw [home]; rfl
  have title := enacts.title
  rw [opened] at title
  obtain ⟨q', opened', same⟩ := Option.map_eq_some_iff.1 title
  have hoisted := enacts.hoisted
  rw [opened, opened', home] at hoisted
  have declared := enacts.declared .procedure
  rw [buffer, buffer, opened, opened'] at declared
  obtain ⟨o, found, opens, known⟩ := drafted.known
  refine ⟨q', opened', ⟨o, opener_append [m] found, opens.of_title same.symm, fun w => ?_⟩, ?_, ?_⟩
  · rw [enacts.localNames (by simp [inside]), known, entriesOf_append, home]
    simp only [List.mem_append, or_and_right, exists_or, or_assoc, mem_entriesOf,
      List.flatMap_singleton, and_assoc]
  · rw [entriesOf_append, List.filter_append, List.map_append, ← drafted.hoisted]
    exact Option.some.inj hoisted
  · rw [entriesOf_append, List.filter_append, List.map_append, ← drafted.declared]
    refine declared.trans (congrArg (_ ++ List.map NameEntry.text ·) ?_)
    rw [entriesOf, List.flatMap_singleton, List.filter_filter]
    refine List.filter_congr fun e mem => ?_
    -- in a procedure no other body is written to
    have here : (e.home.scope == .procedure) = (e.home == .procedure n) := by
      rw [Bool.eq_iff_iff, beq_iff_eq, beq_iff_eq]
      refine ⟨fun within => ?_, fun at_ => by rw [at_]; rfl⟩
      rw [Moment.home_of_inside mem (by simp [within]), home]
    rw [here]

variable {s t : Sketch}

theorem keeps (drafted : Drafted ms n s.localNames q) (opened : s.open? = some q)
    (keeps : Keeps s t) : ∃ q', t.open? = some q' ∧ Drafted ms n t.localNames q' := by
  obtain ⟨title, hoisted⟩ := Procedure.title_of_heading keeps.heading
  have declared := keeps.declared .procedure
  rw [opened] at title hoisted
  obtain ⟨q', opened', same⟩ := Option.map_eq_some_iff.1 title
  rw [opened'] at hoisted
  rw [buffer, buffer, opened, opened'] at declared
  obtain ⟨o, found, opens, known⟩ := drafted.known
  exact ⟨q', opened',
    { known := ⟨o, found, opens.of_title same.symm, by rw [keeps.localNames]; exact known⟩
      hoisted := (Option.some.inj hoisted).trans drafted.hoisted
      declared := declared.trans drafted.declared }⟩

theorem ended {p : Position} (drafted : Drafted ms n s.localNames q) (opened : s.open? = some q)
    (home : p.home = .procedure n) (inside : s.scope = .procedure) (quiet : s.DeclaresNothing) :
    ∀ d ∈ s.ended p, ∃ names, Drafted ms d.1 names d.2 := by
  have pushed : Keeps s (s.push false .procedure 0 "\x7d") :=
    Chores.keeps (.push s false .procedure 0 "\x7d" (.inl inside.symm)) quiet
  obtain ⟨q', opened', after⟩ := drafted.keeps opened pushed
  intro d mem
  obtain rfl : d = (n, q') := by
    simpa [Sketch.ended, inside, opened', home, Home.procedure] using mem
  exact ⟨_, after⟩

end Drafted

/-- At each statement of `ms` the open procedure has been drafted by what was before it. -/
def DraftedAt (before : List Moment) : List Moment → Prop
  | [] => True
  | m :: rest =>
    (m.isStatement = true → ∀ n, m.home = .procedure n →
      ∃ q, m.sketch.open? = some q ∧ Drafted before n m.sketch.localNames q) ∧
    DraftedAt (before ++ [m]) rest

theorem draftedAt_append {before ms more : List Moment} :
    DraftedAt before (ms ++ more) ↔ DraftedAt before ms ∧ DraftedAt (before ++ ms) more := by
  induction ms generalizing before with
  | nil => simp [DraftedAt]
  | cons m rest ih => simp [DraftedAt, ih, and_assoc]

theorem draftedAt_others {before ms : List Moment} (others : ∀ m ∈ ms, m.isStatement = false) :
    DraftedAt before ms := by
  induction ms generalizing before with
  | nil => trivial
  | cons m rest ih =>
    obtain ⟨other, more⟩ := List.forall_mem_cons.1 others
    exact ⟨by simp [other], ih more⟩

/-- The entries so far, with what they say of the names and lines of the sketch. -/
structure Recorded (ms : List Moment) (p : Position) (s : Sketch) : Prop where
  begun : (ms.filter Moment.opens).length = p.begun
  homes : ∀ m ∈ ms, m.home.number ≤ p.begun
  unshared : ∀ m ∈ ms, ∀ e ∈ m.entries, e.isShared = true → m.sketch.isGlobal e.name = false
  apart : (ms.flatMap Moment.entries).Pairwise fun e e' =>
    e.home = e'.home → e.home.scope ≠ .global → lower e.name ≠ lower e'.name
  written : ∀ b, b ≠ .procedure → declarations (s.buffer b) =
    ((ms.flatMap Moment.entries).filter fun e =>
      e.isWritten && e.home.scope == b).map NameEntry.text
  known : p.home.scope ≠ .global → ∀ e ∈ entriesOf p.home ms, lower e.name ∈ s.localNames
  draft : ∀ n, p.home = .procedure n → ∃ q, s.open? = some q ∧ Drafted ms n s.localNames q

structure Records (ms new : List Moment) (done : List (Nat × Procedure)) (p : Position)
    (s : Sketch) : Prop where
  recorded : Recorded (ms ++ new) p s
  told : DraftedAt ms new
  finished : ∀ d ∈ done, ∃ names, Drafted (ms ++ new) d.1 names d.2

namespace Recorded

variable {ms more : List Moment} {p p' : Position} {s t : Sketch}

theorem step {m : Moment} (recorded : Recorded ms p m.sketch) (fits : Fits p m.sketch)
    (home : m.home = p.home) (closed : m.opens = false) (enacts : Enacts m t) :
    Recorded (ms ++ [m]) p t where
  begun := by simpa [List.filter_append, closed] using recorded.begun
  homes := List.forall_mem_append.2
    ⟨recorded.homes, List.forall_mem_singleton.2 (home ▸ fits.number)⟩
  unshared := List.forall_mem_append.2
    ⟨recorded.unshared, List.forall_mem_singleton.2 enacts.unshared⟩
  apart := by
    rw [List.flatMap_append, List.flatMap_singleton]
    refine List.pairwise_append.2 ⟨recorded.apart, m.pairwise_entries _,
      fun e mem e' mem' same inside repeated => ?_⟩
    -- an entry of the same body is known by now, and what is declared is not
    have here : e.home = p.home :=
      same.trans ((Moment.home_of_inside mem' (same ▸ inside)).trans home)
    have known := recorded.known (here ▸ inside) e (mem_entriesOf.2 ⟨mem, here⟩)
    exact enacts.fresh e' mem' (same ▸ inside) (repeated ▸ known)
  written b plain := by
    rw [enacts.declared, recorded.written b plain, List.flatMap_append, List.flatMap_singleton,
      List.filter_append, List.map_append]
  known inside e mem := by
    have names := enacts.localNames (home ▸ inside) (lower e.name)
    rw [entriesOf_append] at mem
    rcases List.mem_append.1 mem with before | new
    · exact names.2 (Or.inl (recorded.known inside e before))
    · obtain ⟨new, here⟩ := mem_entriesOf.1 new
      exact names.2 (Or.inr ⟨e, by simpa using new, here.trans home.symm, rfl⟩)
  draft n here := by
    obtain ⟨q, opened, drafted⟩ := recorded.draft n here
    exact drafted.step (home.trans here) opened enacts

/-- Nothing is declared on the way to another place. -/
theorem turn (recorded : Recorded ms p s) (absent : ∀ m ∈ more, m.entries = [])
    (begun : ((ms ++ more).filter Moment.opens).length = p'.begun) (le : p.begun ≤ p'.begun)
    (homes : ∀ m ∈ more, m.home.number ≤ p.begun)
    (lines : ∀ b, b ≠ .procedure → declarations (t.buffer b) = declarations (s.buffer b))
    (known : p'.home.scope ≠ .global → ∀ e ∈ entriesOf p'.home ms, lower e.name ∈ t.localNames)
    (draft : ∀ n, p'.home = .procedure n →
      ∃ q, t.open? = some q ∧ Drafted (ms ++ more) n t.localNames q) :
    Recorded (ms ++ more) p' t := by
  have same : (ms ++ more).flatMap Moment.entries = ms.flatMap Moment.entries := by
    rw [List.flatMap_append, List.flatMap_eq_nil_iff.2 absent, List.append_nil]
  exact
    { begun := begun
      homes := fun m mem => Nat.le_trans
        (List.forall_mem_append.2 ⟨recorded.homes, homes⟩ m mem) le
      unshared := List.forall_mem_append.2
        ⟨recorded.unshared, fun m mem => by simp [absent m mem]⟩
      apart := same ▸ recorded.apart
      written := fun b plain => by rw [lines b plain, recorded.written b plain, same]
      known := fun inside => by rw [entriesOf_idle absent]; exact known inside
      draft := draft }

theorem keeps (recorded : Recorded ms p s) (keeps : Keeps s t) : Recorded ms p t where
  begun := recorded.begun
  homes := recorded.homes
  unshared := recorded.unshared
  apart := recorded.apart
  written b plain := (keeps.declared b).trans (recorded.written b plain)
  known := by rw [keeps.localNames]; exact recorded.known
  draft n home := by
    obtain ⟨q, opened, drafted⟩ := recorded.draft n home
    exact drafted.keeps opened keeps

theorem congr (recorded : Recorded ms p s) (opened : t.open? = s.open?)
    (names : t.localNames = s.localNames) (lines : ∀ b, t.buffer b = s.buffer b) :
    Recorded ms p t where
  begun := recorded.begun
  homes := recorded.homes
  unshared := recorded.unshared
  apart := recorded.apart
  written b plain := by rw [lines]; exact recorded.written b plain
  known := by rw [names]; exact recorded.known
  draft := by rw [opened, names]; exact recorded.draft

theorem told (recorded : Recorded ms p s) (d : Deed) : DraftedAt ms [⟨p.home, s, d⟩] :=
  ⟨fun _ => recorded.draft, trivial⟩

theorem holds (recorded : Recorded ms p s) (fits : Fits p s) (st : Statement)
    (other : Moment.opens ⟨p.home, s, .statement st⟩ = false)
    (absent : Moment.entries ⟨p.home, s, .statement st⟩ = []) :
    Recorded (ms ++ [⟨p.home, s, .statement st⟩]) p s :=
  @step ms p s ⟨p.home, s, .statement st⟩ recorded fits rfl other
    (.nothing absent rfl rfl fun _ => rfl)

theorem declarations (isStatic : Bool) (ds : List Declaration) :
    ∀ {ms : List Moment} {s : Sketch}, Recorded ms p s → Fits p s →
      s.capture.isSome = true ∨ s.author.any Statement.declares = true →
      Recorded (ms ++ declarationMoments p.home isStatic s ds) p
        (s.emitDeclarations isStatic ds) := by
  induction ds with
  | nil =>
    intro ms s recorded _ _
    rw [declarationMoments, List.append_nil]
    exact recorded
  | cons d rest ih =>
    intro ms s recorded fits signed
    have appends := Appends.emitDeclaration s isStatic d
    have after := @step ms p _ ⟨p.home, s, .declares isStatic d⟩ recorded fits rfl rfl
      (.emitDeclaration fits isStatic d signed)
    rw [declarationMoments, List.append_cons]
    refine ih after ⟨appends.scope.trans fits.scope, ?_, fits.number⟩ ?_
    · rw [appends.scope, appends.opened]
      exact fits.opened
    · rw [appends.capture, appends.author]
      exact signed

theorem ended (recorded : Recorded ms p s) (fits : Fits p s) (quiet : s.DeclaresNothing) :
    ∀ d ∈ s.ended p, ∃ names, Drafted ms d.1 names d.2 := by
  by_cases inside : s.scope = .procedure
  · have home : p.home = .procedure p.home.number := Home.eq_procedure (fits.scope ▸ inside)
    obtain ⟨q, opened, drafted⟩ := recorded.draft _ home
    exact drafted.ended opened home inside quiet
  · rw [Sketch.ended, if_neg inside]
    simp

end Recorded

namespace Records

variable {ms new new' : List Moment} {done done' : List (Nat × Procedure)} {p p' p'' : Position}
  {s s' s'' : Sketch}

theorem trans (fits : Fits p s) (routes : Routes p s new done p' s')
    (routes' : Routes p' s' new' done' p'' s'') (first : Records ms new done p' s')
    (second : Records (ms ++ new) new' done' p'' s'') :
    Records ms (new ++ new') (done ++ done') p'' s'' where
  recorded := by
    rw [← List.append_assoc]
    exact second.recorded
  told := draftedAt_append.2 ⟨first.told, second.told⟩
  finished := by
    rw [← List.append_assoc]
    refine List.forall_mem_append.2 ⟨fun d mem => ?_, second.finished⟩
    obtain ⟨names, drafted⟩ := first.finished d mem
    -- what is finished has no further moment
    obtain ⟨opens, away, -⟩ := routes.finished d mem
    exact ⟨names, drafted.away fun m among home =>
      routes.closed fits opens away (routes'.homes_procedure m among (by simp [home]))⟩

theorem keeps (records : Records ms new done p s) (keeps : Keeps s s') : Records ms new done p s' :=
  ⟨records.recorded.keeps keeps, records.told, records.finished⟩

theorem congr (records : Records ms new done p s) (opened : s'.open? = s.open?)
    (names : s'.localNames = s.localNames) (lines : ∀ b, s'.buffer b = s.buffer b) :
    Records ms new done p s' :=
  ⟨records.recorded.congr opened names lines, records.told, records.finished⟩

theorem cons {m : Moment} (told : DraftedAt ms [m]) (records : Records (ms ++ [m]) new done p s) :
    Records ms (m :: new) done p s where
  recorded := by
    rw [List.append_cons]
    exact records.recorded
  told := ⟨told.1, records.told⟩
  finished := by
    rw [List.append_cons]
    exact records.finished

end Records

namespace Sketch

variable {ms : List Moment} {p : Position} {s : Sketch}

theorem mem_localNames_declareAll {w : String} (ps : List Parameter) {s : Sketch}
    (inside : s.scope ≠ .global) :
    w ∈ (ps.foldl (fun s p => s.declare p.name) s).localNames ↔
      w ∈ s.localNames ∨ ∃ y ∈ ps.map Parameter.name, lower y = w := by
  induction ps generalizing s with
  | nil => simp
  | cons p rest ih =>
    have scope := (Appends.declare (s := s) p.name).scope
    rw [List.foldl_cons, ih (scope ▸ inside), mem_localNames_declare inside]
    simp [or_assoc]

theorem enterProcedure_begins (s : Sketch) (signature header : String) :
    let t := s.enterProcedure signature header
    t.localNames = [] ∧ t.scope = .procedure ∧
      ∃ q, t.open? = some q ∧ q.hoisted = [] ∧ q.body = [] := by
  intro t
  have pushed := push_heading ((s.leave "next procedure").begin signature) false .procedure 0 header
  obtain ⟨q, opened, same⟩ := Option.map_eq_some_iff.1 pushed
  refine ⟨(names_push ..).2, push_scope .., { q with header := q.body, body := [] }, ?_, ?_, rfl⟩
  · rw [show t = _ from enterProcedure_eq ..]
    simp [head, opened]
  · exact congrArg (·.2.2) same

theorem procedureStart_begins (s : Sketch) {h : ProcedureHeader} (inside : h.scope = .procedure) :
    let t := s.procedureStart h
    (∀ w, w ∈ t.localNames ↔ ∃ y ∈ h.name :: h.parameters.map Parameter.name, lower y = w) ∧
      ∃ q, t.open? = some q ∧ q.hoisted = [] ∧ q.body = [] := by
  intro t
  rw [show t = s.openProcedure h from procedureStart_procedure inside]
  unfold openProcedure
  dsimp only
  generalize Cpp.called _ _ ++ ";" = signature
  generalize Cpp.called _ _ ++ " \x7b" = header
  obtain ⟨absent, scope, q, opened, empty⟩ := enterProcedure_begins
    (s.parameterTexts h.parameters).2.2 signature header
  generalize (s.parameterTexts h.parameters).2.2.enterProcedure signature header = u at *
  have within : u.scope ≠ .global := by simp [scope]
  have within' : (u.declare h.name).scope ≠ .global :=
    (Appends.declare (s := u) h.name).scope ▸ within
  refine ⟨fun w => ?_, q, ?_, empty⟩
  · rw [mem_localNames_declareAll _ within', mem_localNames_declare within, absent]
    simp
  · obtain ⟨_, _, first⟩ := declare_frame u h.name
    obtain ⟨_, _, all⟩ := foldl_declare_frame Parameter.name h.parameters (u.declare h.name)
    rw [all, first]
    exact opened

/-! The lines outside of procedures stay while procedures begin and end. -/

section

variable {b : Scope} (plain : b ≠ .procedure)
include plain

theorem buffer_endProcedure (opened : s.scope = .procedure → s.open?.isSome = true) :
    s.endProcedure.buffer b = s.buffer b := by
  have dropped (closer : String) : (s.dropBlocks closer).buffer b = s.buffer b := by
    obtain ⟨_, _, eq⟩ := dropBlocks_frame s closer
    exact buffer_plain (by rw [eq]) (by rw [eq]) (by rw [eq]) b plain
  unfold endProcedure
  cases inside : s.scope with
  | global => exact buffer_plain rfl rfl rfl b plain
  | setup | loop => exact (buffer_plain rfl rfl rfl b plain).trans (dropped "End Sub")
  | procedure =>
    have here : (s.dropBlocks "End").open?.isSome = true := by
      obtain ⟨_, _, eq⟩ := dropBlocks_frame s "End"
      rw [eq]
      exact opened inside
    have pushed := (buffer_push_procedure here "\x7d" plain).trans (dropped "End")
    have still : ((s.dropBlocks "End").push false .procedure 0 "\x7d").open?.isSome = true := by
      rw [push_isSome_open, here]
    dsimp only
    generalize (s.dropBlocks "End").push false .procedure 0 "\x7d" = u at pushed still
    obtain ⟨q, current⟩ := Option.isSome_iff_exists.1 still
    obtain ⟨_, _, eq⟩ := finishProcedure_frame current
    rw [← pushed, eq]
    refine buffer_plain ?_ ?_ ?_ b plain
    all_goals rfl

theorem buffer_leave (opened : s.scope = .procedure → s.open?.isSome = true) (reason : String) :
    (s.leave reason).buffer b = s.buffer b := by
  unfold leave
  split
  · rfl
  · have reported :=
      @buffer_endProcedure (s.report (.unclosedProcedure s.line reason)) b plain opened
    rw [reported]
    exact @buffer_plain s (s.report _) rfl rfl rfl b plain

theorem buffer_enterProcedure (opened : s.scope = .procedure → s.open?.isSome = true)
    (signature header : String) :
    (s.enterProcedure signature header).buffer b = s.buffer b := by
  have left := buffer_leave plain opened "next procedure"
  have outside : (s.leave "next procedure").scope = .global := scope_leave s _
  obtain ⟨-, -, -, -, -, -, lines⟩ := enterProcedure_outside outside signature header
  rw [← left, ← lines b plain, enterProcedure_eq, enterProcedure_eq, leave_of_global outside]

theorem buffer_procedureStart (opened : s.scope = .procedure → s.open?.isSome = true)
    (h : ProcedureHeader) : (s.procedureStart h).buffer b = s.buffer b := by
  have routine (scope : Scope) : (s.enterRoutine scope).buffer b = s.buffer b :=
    (buffer_plain rfl rfl rfl b plain).trans (buffer_leave plain opened "next procedure")
  unfold procedureStart
  split
  · exact routine .setup
  split
  · exact routine .loop
  · unfold openProcedure
    dsimp only
    generalize Cpp.called _ _ ++ ";" = signature
    generalize Cpp.called _ _ ++ " \x7b" = header
    obtain ⟨symbols, eq, -⟩ := parameterTexts_frame s h.parameters
    have entered := @buffer_enterProcedure { s with symbols } b plain opened signature header
    rw [eq]
    generalize ({ s with symbols } : Sketch).enterProcedure signature header = u at entered ⊢
    obtain ⟨_, _, first⟩ := declare_frame u h.name
    obtain ⟨_, _, all⟩ := foldl_declare_frame Parameter.name h.parameters (u.declare h.name)
    rw [all, first]
    exact (buffer_plain rfl rfl rfl b plain).trans
      (entered.trans (buffer_plain rfl rfl rfl b plain))

end

section

variable {m : Moment} {others : List Moment}

theorem filter_opens (opens : m.opens = true) (closed : others.filter Moment.opens = []) :
    (ms ++ m :: others).filter Moment.opens = ms.filter Moment.opens ++ [m] := by
  rw [List.filter_append, List.filter_cons_of_pos opens, closed]

/-- The opening moment of a body is the one with its number. -/
theorem drafted_enters {q : Procedure} {names : List String}
    (begun : (ms.filter Moment.opens).length = p.begun)
    (homes : ∀ m' ∈ ms ++ m :: others, m'.home.number ≤ p.begun) (opens : m.opens = true)
    (closed : others.filter Moment.opens = []) (opened : m.Opens q)
    (brings : ∀ w, w ∈ names ↔ ∃ y ∈ m.brings, lower y = w) (unhoisted : q.hoisted = [])
    (unwritten : q.body = []) : Drafted (ms ++ m :: others) (p.begun + 1) names q := by
  have unseen : entriesOf (.procedure (p.begun + 1)) (ms ++ m :: others) = [] :=
    entriesOf_new homes (Nat.lt_succ_self _)
  refine ⟨⟨m, ?_, opened, ?_⟩, ?_, ?_⟩
  · rw [filter_opens opens closed, Nat.add_sub_cancel, ← begun, List.getElem?_concat_length]
  · simpa [unseen] using brings
  · simp [unseen, unhoisted]
  · simp [unseen, unwritten, SketchLine.declarations]

end

section

variable {n : Nat} {a : Action}

theorem opens_actionMoments : (s.actionMoments p a).filter Moment.opens = [] := by
  refine List.filter_eq_nil_iff.2 fun m mem => ?_
  have other := (home_actionMoments m mem).2
  unfold Moment.opens
  split <;> simp_all [Moment.isStatement]

theorem home_plain : ∀ m ∈ s.moments p (.plain n a), m.home = p.home :=
  List.forall_mem_cons.2 ⟨rfl, fun m mem => (home_actionMoments m mem).1⟩

theorem told_plain (recorded : Recorded ms p s) : DraftedAt ms (s.moments p (.plain n a)) :=
  ⟨fun _ => recorded.draft, draftedAt_others fun m mem => (home_actionMoments m mem).2⟩

end

theorem entries_parameterMoments {home inside : Home} {ps : List Parameter} :
    ∀ {s : Sketch}, ∀ m ∈ parameterMoments home inside s ps, m.entries = [] := by
  induction ps with
  | nil => simp [parameterMoments]
  | cons p rest ih =>
    intro s
    exact List.forall_mem_cons.2 ⟨rfl, List.forall_mem_cons.2 ⟨rfl, ih⟩⟩

theorem entries_procedureStart {n : Nat} (h : ProcedureHeader) :
    ∀ m ∈ s.moments p (.plain n (.procedureStart h)), m.entries = [] := by
  refine List.forall_mem_cons.2 ⟨rfl, fun m mem => ?_⟩
  rw [actionMoments] at mem
  split at mem
  · exact entries_parameterMoments m mem
  · simp at mem

theorem records_stays (recorded : Recorded ms p s) (fits : Fits p s) {n : Nat} {a : Action}
    (starts : ∀ h, a ≠ .procedureStart h) (ends : ∀ kind, a ≠ .procedureEnd kind)
    (signed : s.capture.isSome = true ∨ s.author = some (.plain n a)) :
    Records ms (s.moments p (.plain n a)) [] p (s.perform a) := by
  refine ⟨?_, told_plain recorded, by simp⟩
  have closed : Moment.opens ⟨p.home, s, .statement (.plain n a)⟩ = false := by
    cases a <;> first | rfl | exact absurd rfl (starts _)
  have declares (isDeclaration : a.declares = true) :
      s.capture.isSome = true ∨ s.author.any Statement.declares = true :=
    signed.imp_right fun author => by simp [author, Statement.declares, isDeclaration]
  rw [moments]
  -- an action with parts declares nothing itself: its declarations do, one moment each
  cases whole : a.isParted with
  | false =>
    have alone : s.actionMoments p a = [] := by cases a <;> first | rfl | cases whole
    rw [alone]
    exact @Recorded.step ms p _ ⟨p.home, s, .statement (.plain n a)⟩ recorded fits rfl closed
      (.perform fits whole ends signed)
  | true =>
    rw [List.append_cons]
    cases a with
    | dim ds =>
      exact Recorded.declarations false ds (recorded.holds fits _ rfl rfl) fits (declares rfl)
    | static ds =>
      exact Recorded.declarations true ds (recorded.holds fits _ rfl rfl) fits (declares rfl)
    | procedureStart h => exact absurd rfl (starts h)
    | _ => cases whole

theorem records_start (recorded : Recorded ms p s) (fits : Fits p s) {n : Nat}
    (h : ProcedureHeader) (quiet : s.DeclaresNothing) :
    Records ms (s.moments p (.plain n (.procedureStart h))) (s.ended p) (p.enter h.scope)
      (s.procedureStart h) := by
  have absent := @entries_procedureStart p s n h
  have homes : ∀ m ∈ s.moments p (.plain n (.procedureStart h)), m.home.number ≤ p.begun :=
    fun m mem => home_plain m mem ▸ fits.number
  refine ⟨recorded.turn absent ?_ (Nat.le_succ _) homes (fun b plain => ?_) (fun _ => ?_)
    (fun k here => ?_), told_plain recorded, fun d mem => ?_⟩
  · rw [moments, filter_opens rfl opens_actionMoments, List.length_append, recorded.begun]
    rfl
  · rw [buffer_procedureStart plain fits.opened.1]
  · rw [entriesOf_new recorded.homes (Nat.lt_succ_self p.begun)]
    simp
  · obtain ⟨inside, rfl⟩ : h.scope = .procedure ∧ p.begun + 1 = k := by
      simpa [Position.enter, Home.procedure] using here
    obtain ⟨brings, q, opened, unhoisted, unwritten⟩ := procedureStart_begins s inside
    refine ⟨q, opened, drafted_enters recorded.begun
      (List.forall_mem_append.2 ⟨recorded.homes, homes⟩) rfl opens_actionMoments ?_ brings unhoisted
      unwritten⟩
    exact ⟨inside, congrArg (Option.map Procedure.title) opened⟩
  · -- a procedure that is still open ends where the header stands
    obtain ⟨names, drafted⟩ := recorded.ended fits quiet d mem
    exact ⟨names, drafted.congr (entriesOf_idle absent)⟩

theorem records_end (recorded : Recorded ms p s) (fits : Fits p s) {n : Nat}
    (kind : ProcedureKind) (quiet : s.DeclaresNothing) :
    Records ms (s.moments p (.plain n (.procedureEnd kind)))
      (s.ended p) p.leave s.endProcedure := by
  have held : Recorded (ms ++ s.moments p (.plain n (.procedureEnd kind))) p s :=
    recorded.holds fits _ rfl rfl
  have left : Recorded (ms ++ s.moments p (.plain n (.procedureEnd kind)) ++ []) p.leave
      s.endProcedure := by
    refine held.turn (by simp) (by rw [List.append_nil]; exact held.begun) (Nat.le_refl _) (by simp)
      (fun b plain => ?_) (fun inside => absurd rfl inside) fun k here => ?_
    · rw [buffer_endProcedure plain fits.opened.1]
    · exact absurd here.symm (Home.procedure_ne_outside k)
  rw [List.append_nil] at left
  exact ⟨left, recorded.told _, held.ended fits quiet⟩

theorem records_plain (recorded : Recorded ms p s) (fits : Fits p s) {n : Nat} {a : Action}
    (signed : s.capture.isSome = true ∨ s.author = some (.plain n a)) :
    Records ms (s.moments p (.plain n a)) (s.finishes p (.plain n a)) (a.moves p)
      (s.perform a) := by
  have quiet (other : a.declares = false) : s.DeclaresNothing :=
    signed.imp_right fun author => by simp [author, Statement.declares, other]
  cases a with
  | procedureStart h => exact records_start recorded fits h (quiet rfl)
  | procedureEnd kind => exact records_end recorded fits kind (quiet rfl)
  | _ => exact records_stays recorded fits (by simp) (by simp) signed

theorem keeps_announce (quiet : s.DeclaresNothing) : Keeps s s.announce :=
  Chores.keeps ((Chores.note s s.symbols s.includes s.sprites s.blocks (s.everyCount + 1)
    s.events).trans (.emitGlobal _ _)) quiet

theorem keeps_poll (quiet : s.DeclaresNothing) (id : Nat) (interval : String) :
    Keeps s (s.poll id interval) :=
  Chores.keeps ((((Chores.emitLoop _ 0 _).trans (.emitLoop _ 1 _)).trans (.emitLoop _ 1 _)).trans
    (.emitLoop _ 0 _)) quiet

theorem task_records (recorded : Recorded ms p s) (fits : Fits p s) (quiet : s.DeclaresNothing)
    (n : Nat) (interval : Expr) (body : List Statement) :
    Recorded (ms ++ [⟨p.home, s, .statement (.every n interval body)⟩]) (p.enter .procedure)
      s.task := by
  let m : Moment := ⟨p.home, s, .statement (.every n interval body)⟩
  have homes : ∀ m' ∈ [m], m'.home.number ≤ p.begun := List.forall_mem_singleton.2 fits.number
  obtain ⟨-, -, -, -, -, lines, -⟩ := task_frame s
  obtain ⟨names, -, q, opened, unhoisted, unwritten⟩ := enterProcedure_begins s.announce.suspend
    s!"void _every_task_{s.everyCount + 1}();" s!"void _every_task_{s.everyCount + 1}() \x7b"
  have brings (w : String) : w ∈ s.task.localNames ↔ ∃ y ∈ m.brings, lower y = w := by
    rw [show s.task.localNames = [] from names]
    simp [m, Moment.brings]
  have drafted := drafted_enters recorded.begun
    (List.forall_mem_append.2 ⟨recorded.homes, homes⟩) rfl rfl
    (show m.Opens q from congrArg (Option.map Procedure.title) opened) brings unhoisted unwritten
  refine recorded.turn (List.forall_mem_singleton.2 rfl) ?_ (Nat.le_succ _) homes
    (fun b plain => ?_) (fun _ => ?_) fun k here => ?_
  · rw [filter_opens rfl rfl, List.length_append, recorded.begun]
    rfl
  · rw [lines b plain, (keeps_announce quiet).declared]
  · rw [entriesOf_new recorded.homes (Nat.lt_succ_self p.begun)]
    simp
  · obtain rfl : p.begun + 1 = k := congrArg Home.number here
    exact ⟨q, opened, drafted⟩

theorem resumes_records {m : Moment} {new : List Moment} {done : List (Nat × Procedure)}
    {p' : Position} {t : Sketch} (recorded : Recorded ms p s) (fits : Fits p s)
    (quiet : s.DeclaresNothing) (absent : m.entries = [])
    (inner : Records (ms ++ [m]) new done p' t)
    (routes : Routes (p.enter .procedure) s.task new done p' t) (interval : String) :
    Records (ms ++ [m]) new (done ++ (t.start s.line).ended p') { p with begun := p'.begun }
      ((((t.start s.line).endProcedure.leave "end of Every block").resume s.announce).poll
        (s.everyCount + 1) interval) := by
  have announced := keeps_announce quiet
  obtain ⟨-, -, author, capture, -⟩ := task_frame s
  have quiet' : (t.start s.line).DeclaresNothing := by
    rw [DeclaresNothing, show (t.start s.line).author = s.author from
      routes.author.trans (author.trans announced.author),
      show (t.start s.line).capture.isSome = s.capture.isSome from
      routes.capture.trans (capture.trans announced.capture)]
    exact quiet
  have fits' : Fits p' (t.start s.line) :=
    ⟨routes.fits.scope, routes.fits.opened, routes.fits.number⟩
  have started : Recorded (ms ++ [m] ++ new) p' (t.start s.line) :=
    inner.recorded.congr rfl rfl fun b => by cases b <;> rfl
  have carries := (carries_endProcedure (t.start s.line)).1
  rw [leave_of_global (scope_endProcedure _)]
  have lines {b : Scope} (plain : b ≠ .procedure) :=
    @buffer_endProcedure (t.start s.line) b plain fits'.opened.1
  generalize (t.start s.line).endProcedure = u at carries lines ⊢
  have quiet'' : (u.resume s.announce).DeclaresNothing := by
    change u.capture.isSome = true ∨ u.author.any Statement.declares = false
    rw [carries.capture, carries.author]
    exact quiet'
  -- the body around has been left as it was
  have same (inside : p.home.scope ≠ .global) :
      entriesOf p.home (ms ++ [m] ++ new) = entriesOf p.home ms := by
    rw [entriesOf_away inside fun m' mem here => ?_,
      entriesOf_idle (List.forall_mem_singleton.2 absent)]
    have number := fits.number
    rw [← here] at number inside
    have later : p.begun < m'.home.number := by
      rcases routes.homes m' mem fun outside => inside (by rw [outside]; rfl) with task | ⟨later, -⟩
      · exact task ▸ Nat.lt_succ_self _
      · exact Nat.lt_of_succ_lt later
    omega
  have resumed : Recorded (ms ++ [m] ++ new ++ []) { p with begun := p'.begun }
      (u.resume s.announce) := by
    refine started.turn (by simp) (by rw [List.append_nil]; exact started.begun) (Nat.le_refl _)
      (by simp) (fun b plain => ?_) (fun inside e mem => ?_) fun k here => ?_
    · rw [@buffer_plain u (u.resume s.announce) rfl rfl rfl b plain, lines plain]
    · rw [same inside] at mem
      show lower e.name ∈ s.announce.localNames
      rw [announced.localNames]
      exact recorded.known inside e mem
    · obtain ⟨q, opened, drafted⟩ := recorded.draft k here
      have unchanged := same (by rw [show p.home = .procedure k from here]; simp [Home.procedure])
      rw [show p.home = .procedure k from here, List.append_assoc] at unchanged
      have still := drafted.congr unchanged
      rw [← List.append_assoc] at still
      obtain ⟨q', opened', after⟩ := still.keeps opened announced
      exact ⟨q', opened', by rw [List.append_nil]; exact after⟩
  rw [List.append_nil] at resumed
  exact ⟨resumed.keeps (keeps_poll quiet'' _ _), inner.told,
    List.forall_mem_append.2 ⟨inner.finished, started.ended fits' quiet'⟩⟩

mutual

theorem place_records : (st : Statement) → (p : Position) → (s : Sketch) → Fits p s →
    s.capture.isSome = true ∨ s.author = some st → (ms : List Moment) → Recorded ms p s →
    Records ms (s.moments p st) (s.finishes p st) (st.moves p) (s.place st)
  | .plain n a, p, s, fits, signed, ms, recorded => records_plain recorded fits signed
  | .inlineIf n c thenBranch, p, s, fits, signed, ms, recorded => by
    have fits' : Fits p { s with capture := some [] } := ⟨fits.scope, fits.opened, fits.number⟩
    have held := recorded.holds fits (.inlineIf n c thenBranch) rfl rfl
    have inside := place_records thenBranch p { s with capture := some [] } fits' (Or.inl rfl) _
      (held.congr rfl rfl fun b => by cases b <;> rfl)
    have routes := place_finishes thenBranch p { s with capture := some [] } fits' (Or.inl rfl)
    have quiet : (s.captured fun s => s.place thenBranch).2.DeclaresNothing :=
      signed.imp_right fun author => by
        rw [show (s.captured fun s => s.place thenBranch).2.author = s.author from routes.author,
          author]
        rfl
    have after : Records (ms ++ _) _ _ _ (s.captured fun s => s.place thenBranch).2 :=
      inside.congr rfl rfl fun b => by cases b <;> rfl
    rw [moments, finishes]
    exact .cons (recorded.told _) (after.keeps (Chores.keeps (.emit _ _) quiet))
  | .inlineIfElse n c thenBranch elseBranch, p, s, fits, signed, ms, recorded => by
    have fits' : Fits p { s with capture := some [] } := ⟨fits.scope, fits.opened, fits.number⟩
    have held := recorded.holds fits (.inlineIfElse n c thenBranch elseBranch) rfl rfl
    have first := place_records thenBranch p { s with capture := some [] } fits' (Or.inl rfl) _
      (held.congr rfl rfl fun b => by cases b <;> rfl)
    have routes := place_finishes thenBranch p { s with capture := some [] } fits' (Or.inl rfl)
    let t := (s.captured fun s => s.place thenBranch).2
    have fits'' : Fits (thenBranch.moves p) { t with capture := some [] } :=
      ⟨routes.fits.scope, routes.fits.opened, routes.fits.number⟩
    have second := place_records elseBranch (thenBranch.moves p)
      { t with capture := some [] } fits''
      (Or.inl rfl) _ (first.recorded.congr rfl rfl fun b => by cases b <;> rfl)
    have routes' := place_finishes elseBranch (thenBranch.moves p) { t with capture := some [] }
      fits'' (Or.inl rfl)
    have quiet : (t.captured fun s => s.place elseBranch).2.DeclaresNothing :=
      signed.imp_right fun author => by
        rw [show (t.captured fun s => s.place elseBranch).2.author = s.author from
          routes'.author.trans routes.author, author]
        rfl
    have between : Records (ms ++ _) _ _ _ t := first.congr rfl rfl fun b => by cases b <;> rfl
    have after : Records (ms ++ _ ++ _) _ _ _ (t.captured fun s => s.place elseBranch).2 :=
      second.congr rfl rfl fun b => by cases b <;> rfl
    rw [moments, finishes]
    exact .cons (recorded.told _) ((between.trans fits routes.captured routes'.captured after).keeps
      (Chores.keeps (.emit _ _) quiet))
  | .every n interval body, p, s, fits, signed, ms, recorded => by
    have quiet : s.DeclaresNothing := signed.imp_right fun author => by rw [author]; rfl
    have inside := task_records recorded fits quiet n interval body
    obtain ⟨scope, opened, -⟩ := task_frame s
    have fits' : Fits (p.enter .procedure) s.task := ⟨scope, by simp [scope, opened], Nat.le_refl _⟩
    have inner := statements_records body (p.enter .procedure) s.task fits' _ inside
    have routes := statements_finishes body (p.enter .procedure) s.task fits'
    rw [moments, finishes, place, emitEvery_eq]
    exact .cons (recorded.told _) (resumes_records recorded fits quiet rfl inner routes _)

theorem statements_records : (sts : List Statement) → (p : Position) → (s : Sketch) → Fits p s →
    (ms : List Moment) → Recorded ms p s →
    Records ms (s.allMoments p sts) (s.allFinishes p sts) (Statement.movesAll p sts)
      (s.statements sts)
  | [], p, s, fits, ms, recorded =>
    ⟨by rw [allMoments, List.append_nil]; exact recorded, trivial, by simp [allFinishes]⟩
  | first :: rest, p, s, fits, ms, recorded => by
    have fits' : Fits p (s.facing first) := ⟨fits.scope, fits.opened, fits.number⟩
    have here := place_records first p (s.facing first) fits' (Or.inr rfl) ms
      (recorded.congr rfl rfl fun b => by cases b <;> rfl)
    have routes := (place_finishes first p (s.facing first) fits' (Or.inr rfl)).statement
    have behind : Records ms (moments (s.facing first) p first) (finishes (s.facing first) p first)
      (first.moves p) (s.statements [first]) := here.congr rfl rfl fun b => by cases b <;> rfl
    have routes' := statements_finishes rest (first.moves p) (s.statements [first]) routes.fits
    have after := statements_records rest (first.moves p) (s.statements [first]) routes.fits _
      behind.recorded
    rw [statements_cons]
    exact behind.trans fits routes routes' after

end

end Sketch

theorem records_ofStatements (options : Options) (sts : List Statement) :
    Records [] (momentsOf options sts) (finished options sts) (Statement.movesAll .start sts).leave
      (Sketch.ofStatements options sts) := by
  have fits : Fits .start (empty options) := ⟨rfl, by simp [empty], Nat.le_refl _⟩
  have start : Recorded [] .start (empty options) :=
    { begun := rfl
      homes := by simp
      unshared := by simp
      apart := List.Pairwise.nil
      written := fun b _ => by cases b <;> rfl
      known := by simp [Position.start, Home.outside]
      draft := fun n here => absurd here.symm (Home.procedure_ne_outside n) }
  have records := statements_records sts .start (empty options) fits [] start
  have routes := statements_finishes sts .start (empty options) fits
  have quiet : ((empty options).statements sts).DeclaresNothing :=
    Or.inr (by rw [routes.author]; rfl)
  obtain ⟨_, _, dropped⟩ := dropBlocks_frame
    (((empty options).statements sts).leave "end of input") "end of input"
  have left : Recorded ([] ++ momentsOf options sts ++ []) (Statement.movesAll .start sts).leave
      (Sketch.ofStatements options sts) := by
    refine records.recorded.turn (by simp) ?_ (Nat.le_refl _) (by simp) (fun b plain => ?_)
      (fun inside => absurd rfl inside) fun n here => absurd here.symm (Home.procedure_ne_outside n)
    · rw [List.append_nil]
      exact records.recorded.begun
    · rw [show Sketch.ofStatements options sts = _ from dropped, ←
        buffer_leave plain routes.fits.opened.1 "end of input"]
      exact congrArg SketchLine.declarations (buffer_plain rfl rfl rfl b plain)
  rw [List.append_nil] at left
  exact ⟨left, records.told, List.forall_mem_append.2 ⟨records.finished,
    records.recorded.ended routes.fits quiet⟩⟩

end BasicSketch
