import BasicSketch.Proofs.ScopeRouting

set_option autoImplicit false

/-! What holds at every moment of a program. -/

namespace BasicSketch

def Action.isParted : Action → Bool
  | .dim _ | .static _ | .procedureStart _ => true
  | _ => false

def Statement.isParted : Statement → Bool
  | .plain _ a => a.isParted
  | _ => true

namespace Sketch

section

variable (s : Sketch)

@[simp] theorem symbols_emit (text : String) : (s.emit text).symbols = s.symbols :=
  push_symbols ..

@[simp] theorem symbols_emitGlobal (text : String) : (s.emitGlobal text).symbols = s.symbols :=
  push_symbols ..

@[simp] theorem symbols_emitLoop (extra : Nat) (text : String) :
    (s.emitLoop extra text).symbols = s.symbols :=
  push_symbols ..

@[simp] theorem symbols_report (e : Event) : (s.report e).symbols = s.symbols := rfl

@[simp] theorem symbols_declare (name : String) : (s.declare name).symbols = s.symbols := by
  obtain ⟨_, _, eq⟩ := declare_frame s name
  rw [eq]

@[simp] theorem symbols_dropBlocks (closer : String) :
    (s.dropBlocks closer).symbols = s.symbols := by
  obtain ⟨_, _, eq⟩ := dropBlocks_frame s closer
  rw [eq]

@[simp] theorem symbols_finishProcedure : s.finishProcedure.symbols = s.symbols := by
  unfold finishProcedure
  split
  · rfl
  · rename_i p _
    obtain ⟨_, _, _, eq, -⟩ := addProcedure_frame { s with open? := none } p
    rw [eq]

@[simp] theorem symbols_endProcedure : s.endProcedure.symbols = s.symbols := by
  unfold endProcedure
  split <;> simp

@[simp] theorem symbols_leave (reason : String) : (s.leave reason).symbols = s.symbols := by
  unfold leave
  split <;> simp

@[simp] theorem symbols_enterRoutine (scope : Scope) : (s.enterRoutine scope).symbols = s.symbols :=
  symbols_leave ..

@[simp] theorem symbols_enterProcedure (signature header : String) :
    (s.enterProcedure signature header).symbols = s.symbols := by
  simp [enterProcedure_eq, head, begin]

theorem symbols_perform {a : Action} (quiet : a.isQuiet = true) :
    (s.perform a).symbols = s.symbols := by
  refine (Does.perform s a ?_ ?_).symbols_eq quiet
  all_goals
    rintro _ rfl
    cases quiet

theorem symbols_draw (command : DrawCommand) (arguments : List Expr) :
    (s.emitDraw command arguments).symbols = s.setDrawn.symbols := by
  unfold emitDraw
  dsimp only
  split <;> exact symbols_emit ..

theorem symbols_sprite (command : SpriteCommand) (sprite : String) (arguments : List Expr) :
    (s.emitSprite command sprite arguments).symbols = s.setDrawn.symbols := by
  cases command with
  | create => exact (symbols_emit ..).trans (symbols_createSprite s.setDrawn _ _)
  | _ => exact symbols_emit s.setDrawn _

theorem symbols_declareAll (ps : List Parameter) :
    ∀ s : Sketch, (ps.foldl (fun s p => s.declare p.name) s).symbols = s.symbols := by
  induction ps with
  | nil => exact fun _ => rfl
  | cons p rest ih => exact fun s => (ih (s.declare p.name)).trans (symbols_declare s p.name)

theorem symbols_openProcedure (h : ProcedureHeader) :
    (s.openProcedure h).symbols = (s.parameterTexts h.parameters).2.2.symbols := by
  unfold openProcedure
  dsimp only
  rw [symbols_declareAll, symbols_declare, symbols_enterProcedure]

theorem symbols_announce : s.announce.symbols = s.symbols := symbols_emitGlobal ..

theorem symbols_task : s.task.symbols = s.symbols :=
  (symbols_enterProcedure ..).trans (symbols_emitGlobal ..)

theorem symbols_poll (id : Nat) (interval : String) : (s.poll id interval).symbols = s.symbols := by
  simp [poll]

end

def drafts (s : Sketch) : List Procedure := s.procedures ++ s.open?.toList

def KeepsHoisted (s t : Sketch) : Prop := ∀ q ∈ t.drafts, ∃ q₀ ∈ s.drafts, q₀.heading = q.heading

structure KeepsNames (s t : Sketch) : Prop where
  globalNames : t.globalNames = s.globalNames
  hoisted : KeepsHoisted s t

/-- No procedure is new but the one that is open, with nothing hoisted yet. -/
structure Enters (s t : Sketch) : Prop where
  globalNames : t.globalNames = s.globalNames
  drafts : ∀ q ∈ t.drafts,
    t.open? = some q ∧ q.hoisted = [] ∨ ∃ q₀ ∈ s.drafts, q₀.heading = q.heading

theorem KeepsHoisted.trans {s t u : Sketch} (first : KeepsHoisted s t)
    (second : KeepsHoisted t u) : KeepsHoisted s u := by
  intro q mem
  obtain ⟨q', mem', eq⟩ := second q mem
  obtain ⟨q₀, mem₀, eq₀⟩ := first q' mem'
  exact ⟨q₀, mem₀, eq₀.trans eq⟩

namespace KeepsNames

variable {s t u : Sketch}

theorem trans (first : KeepsNames s t) (second : KeepsNames t u) : KeepsNames s u :=
  ⟨second.globalNames.trans first.globalNames, first.hoisted.trans second.hoisted⟩

theorem of_heading (globalNames : t.globalNames = s.globalNames)
    (procedures : t.procedures = s.procedures)
    (heading : t.open?.map Procedure.heading = s.open?.map Procedure.heading) : KeepsNames s t where
  globalNames := globalNames
  hoisted q mem := by
    rw [Sketch.drafts, procedures, List.mem_append, Option.mem_toList] at mem
    rcases mem with finished | opened
    · exact ⟨q, List.mem_append_left _ finished, rfl⟩
    · rw [Option.mem_def.1 opened] at heading
      obtain ⟨q₀, opened₀, eq⟩ := Option.map_eq_some_iff.1 heading.symm
      exact ⟨q₀, List.mem_append_right _ (Option.mem_toList.2 opened₀), eq⟩

theorem of_subset (globalNames : t.globalNames = s.globalNames)
    (drafts : ∀ q ∈ t.drafts, q ∈ s.drafts) : KeepsNames s t :=
  ⟨globalNames, fun q mem => ⟨q, drafts q mem, rfl⟩⟩

theorem of_eq (globalNames : t.globalNames = s.globalNames)
    (procedures : t.procedures = s.procedures) (opened : t.open? = s.open?) : KeepsNames s t :=
  of_heading globalNames procedures (by rw [opened])

theorem push (s : Sketch) (inPlace : Bool) (scope : Scope) (depth : Nat) (text : String) :
    KeepsNames s (s.push inPlace scope depth text) :=
  of_heading (names_push s inPlace scope depth text).1 (by simp) (by simp)

theorem chores (chores : Chores s t) : KeepsNames s t := by
  induction chores with
  | push s inPlace scope depth text _ => exact push s inPlace scope depth text
  | note => exact of_eq rfl rfl rfl
  | trans _ _ first second => exact first.trans second

variable (s)

theorem finishProcedure : KeepsNames s s.finishProcedure := by
  cases opened : s.open? with
  | none =>
    rw [Sketch.finishProcedure, opened]
    exact of_eq rfl rfl rfl
  | some q =>
    obtain ⟨signatures, events, eq⟩ := finishProcedure_frame opened
    rw [eq]
    refine of_subset rfl fun q' mem => ?_
    simp only [Sketch.drafts, Procedure.collect, opened, List.mem_append, List.mem_filter,
      Option.toList_none, Option.toList_some, List.not_mem_nil, or_false] at mem ⊢
    exact mem.imp_left And.left

theorem endProcedure : KeepsNames s s.endProcedure := by
  unfold Sketch.endProcedure
  cases s.scope with
  | global => exact of_eq rfl rfl rfl
  | setup | loop => exact (chores (.dropBlocks s "End Sub")).trans (of_eq rfl rfl rfl)
  | procedure =>
    exact (((chores (.dropBlocks s "End")).trans (push ..)).trans (finishProcedure _)).trans
      (of_eq rfl rfl rfl)

theorem leave (reason : String) : KeepsNames s (s.leave reason) := by
  unfold Sketch.leave
  split
  · exact of_eq rfl rfl rfl
  · exact (chores (.report s _)).trans (endProcedure _)

theorem enterRoutine (scope : Scope) : KeepsNames s (s.enterRoutine scope) :=
  (leave s "next procedure").trans (of_eq rfl rfl rfl)

theorem suspend : KeepsNames s s.suspend :=
  of_subset rfl fun _ mem =>
    List.mem_append_left _ (by simpa [Sketch.drafts, Sketch.suspend] using mem)

theorem announce : KeepsNames s s.announce :=
  chores ((Chores.note s s.symbols s.includes s.sprites s.blocks (s.everyCount + 1) s.events).trans
    (.emitGlobal _ _))

theorem declare {s : Sketch} (inside : s.scope ≠ .global) (name : String) :
    KeepsNames s (s.declare name) := by
  unfold Sketch.declare
  split
  · exact absurd ‹_› inside
  · split <;> exact of_eq rfl rfl rfl

end KeepsNames

namespace Enters

variable {s t u : Sketch}

theorem of_keeps (keeps : KeepsNames s t) : Enters s t :=
  ⟨keeps.globalNames, fun q mem => Or.inr (keeps.hoisted q mem)⟩

theorem after (enters : Enters t u) (keeps : KeepsNames s t) : Enters s u where
  globalNames := enters.globalNames.trans keeps.globalNames
  drafts q mem := (enters.drafts q mem).imp_right fun ⟨q', mem', eq⟩ => by
    obtain ⟨q₀, mem₀, eq₀⟩ := keeps.hoisted q' mem'
    exact ⟨q₀, mem₀, eq₀.trans eq⟩

theorem enterProcedure (s : Sketch) (signature header : String) :
    Enters s (s.enterProcedure signature header) := by
  rw [enterProcedure_eq]
  refine after ?_ (.leave s "next procedure")
  generalize s.leave "next procedure" = t
  have pushed := KeepsNames.push (t.begin signature) false .procedure 0 header
  have procedures := push_procedures (t.begin signature) false .procedure 0 header
  have heading := push_heading (t.begin signature) false .procedure 0 header
  generalize (t.begin signature).push false .procedure 0 header = u at pushed procedures heading
  refine ⟨pushed.globalNames, fun q mem => ?_⟩
  rw [Sketch.drafts, List.mem_append, Option.mem_toList] at mem
  rcases mem with finished | opened
  · exact Or.inr ⟨q, List.mem_append_left _ (procedures ▸ finished), rfl⟩
  · obtain ⟨q', opened', rfl⟩ := Option.map_eq_some_iff.1 opened
    rw [opened'] at heading
    exact Or.inl ⟨opened, congrArg (·.2.2) (Option.some.inj heading)⟩

theorem task (s : Sketch) : Enters s s.task :=
  (enterProcedure ..).after ((KeepsNames.announce s).trans (.suspend _))

theorem declare (enters : Enters s t) (inside : t.scope ≠ .global) (name : String) :
    Enters s (t.declare name) := by
  have same := (@KeepsNames.declare t inside name).globalNames
  obtain ⟨_, _, eq⟩ := declare_frame t name
  rw [eq] at same ⊢
  exact ⟨same.trans enters.globalNames, enters.drafts⟩

theorem declareAll (ps : List Parameter) {t : Sketch} (enters : Enters s t)
    (inside : t.scope ≠ .global) : Enters s (ps.foldl (fun s p => s.declare p.name) t) := by
  induction ps generalizing t with
  | nil => exact enters
  | cons p rest ih =>
    have scope := (Appends.declare (s := t) p.name).scope
    exact ih (enters.declare inside p.name) (scope ▸ inside)

theorem openProcedure (s : Sketch) (h : ProcedureHeader) :
    Enters (s.parameterTexts h.parameters).2.2 (s.openProcedure h) := by
  have opened (t : Sketch) (signature header : String) :
      Enters t (h.parameters.foldl (fun s p => s.declare p.name)
        ((t.enterProcedure signature header).declare h.name)) := by
    have inside : (t.enterProcedure signature header).scope ≠ .global := by
      simp [enterProcedure_eq, head, begin]
    have entered := (enterProcedure t signature header).declare inside h.name
    have scope := (Appends.declare (s := t.enterProcedure signature header) h.name).scope
    exact declareAll h.parameters entered (scope ▸ inside)
  exact opened _ _ _

theorem procedureStart (s : Sketch) (h : ProcedureHeader) : Enters s (s.procedureStart h) := by
  unfold Sketch.procedureStart
  split
  · exact of_keeps (.enterRoutine s .setup)
  split
  · exact of_keeps (.enterRoutine s .loop)
  · exact (openProcedure s h).after (.chores (.parameterTexts s h.parameters))

end Enters

/-- What `Inv` says of a sketch and the moments before it is kept by writing. -/
structure History (Inv : List Moment → Sketch → Prop) : Prop where
  rests : ∀ {earlier : List Moment} {s t : Sketch}, Inv earlier s → t.symbols = s.symbols →
    KeepsNames s t → Inv earlier t
  holds : ∀ {earlier : List Moment} {s : Sketch} (home : Home) (st : Statement), Inv earlier s →
    (∀ n a, st ≠ .plain n a) → Inv (earlier ++ [⟨home, s, .statement st⟩]) s
  performs : ∀ {earlier : List Moment} {p : Position} {s : Sketch} (n : Nat) (a : Action),
    Inv earlier s → Fits p s → Inv (earlier ++ s.moments p (.plain n a)) (s.perform a)
  tasks : ∀ {earlier : List Moment} {s : Sketch} (home : Home) (n : Nat) (interval : Expr)
    (body : List Statement), let m : Moment := ⟨home, s, .statement (.every n interval body)⟩
    Inv (earlier ++ [m]) s → Inv (earlier ++ [m]) s.task
  resumes : ∀ {earlier later : List Moment} {s t : Sketch}, Inv earlier s →
    Inv (earlier ++ later) t → Inv (earlier ++ later) (t.resume s)

namespace History

variable {Inv : List Moment → Sketch → Prop}

variable {earlier : List Moment} {s : Sketch}

theorem emit (history : History Inv) (inv : Inv earlier s) (text : String) :
    Inv earlier (s.emit text) :=
  history.rests inv (symbols_emit ..) (.chores (.emit s text))

theorem poll (history : History Inv) (inv : Inv earlier s) (id : Nat) (interval : String) :
    Inv earlier (s.poll id interval) :=
  history.rests inv (symbols_poll ..) (.chores ((((Chores.emitLoop _ 0 _).trans
    (.emitLoop _ 1 _)).trans (.emitLoop _ 1 _)).trans (.emitLoop _ 0 _)))

theorem captures (history : History Inv) (inv : Inv earlier s) (capture : Option (List String)) :
    Inv earlier { s with capture } :=
  history.rests inv rfl (.of_eq rfl rfl rfl)

mutual

theorem place (history : History Inv) : (st : Statement) → (p : Position) → (s : Sketch) →
    Fits p s → (earlier : List Moment) → Inv earlier s →
    Inv (earlier ++ s.moments p st) (s.place st)
  | .plain n a, p, s, fits, earlier, inv => history.performs n a inv fits
  | .inlineIf n c thenBranch, p, s, fits, earlier, inv => by
    have here := history.captures (history.holds p.home (.inlineIf n c thenBranch) inv (by simp))
      (some [])
    have first := history.place thenBranch p { s with capture := some [] }
      ⟨fits.scope, fits.opened, fits.number⟩ _ here
    rw [moments, List.append_cons]
    exact history.emit (history.captures first s.capture) _
  | .inlineIfElse n c thenBranch elseBranch, p, s, fits, earlier, inv => by
    -- the second branch stands where the first one has moved, which need not be `p`
    have here := history.captures
      (history.holds p.home (.inlineIfElse n c thenBranch elseBranch) inv (by simp)) (some [])
    have first := history.place thenBranch p { s with capture := some [] }
      ⟨fits.scope, fits.opened, fits.number⟩ _ here
    have routes := place_finishes thenBranch p { s with capture := some [] }
      ⟨fits.scope, fits.opened, fits.number⟩ (Or.inl rfl)
    have second := history.place elseBranch (thenBranch.moves p)
      { (s.captured fun s => s.place thenBranch).2 with capture := some [] }
      ⟨routes.fits.scope, routes.fits.opened, routes.fits.number⟩ _
      (history.captures first (some []))
    rw [moments, List.append_cons, ← List.append_assoc]
    exact history.emit (history.captures second s.capture) _
  | .every n interval body, p, s, fits, earlier, inv => by
    -- the sketch leaves its body for the task and resumes it, so the invariant is needed twice:
    -- of the sketch that was left and of the one that has written the task
    have here := history.holds p.home (.every n interval body) inv (by simp)
    have announced := history.rests here (symbols_announce s) (.announce s)
    obtain ⟨scope, opened, -⟩ := task_frame s
    have inside := history.statements body (p.enter .procedure) s.task
      ⟨scope, by simp [scope, opened], Nat.le_refl _⟩ _
      (history.tasks p.home n interval body here)
    have started : Inv _ ((s.task.statements body).start s.line) :=
      history.rests inside rfl (.of_eq rfl rfl rfl)
    have ended := history.rests started ((symbols_leave ..).trans (symbols_endProcedure _))
      ((KeepsNames.endProcedure _).trans (.leave _ "end of Every block"))
    rw [moments, Sketch.place, emitEvery_eq, List.append_cons]
    exact history.poll (history.resumes announced ended) _ _

theorem statements (history : History Inv) : (sts : List Statement) → (p : Position) →
    (s : Sketch) → Fits p s → (earlier : List Moment) → Inv earlier s →
    Inv (earlier ++ s.allMoments p sts) (s.statements sts)
  | [], p, s, fits, earlier, inv => by simpa [allMoments, Sketch.statements] using inv
  | first :: rest, p, s, fits, earlier, inv => by
    have here := history.place first p (s.facing first) ⟨fits.scope, fits.opened, fits.number⟩
      earlier (history.rests inv rfl (.of_eq rfl rfl rfl))
    have routes := place_finishes first p (s.facing first)
      ⟨fits.scope, fits.opened, fits.number⟩ (Or.inr rfl)
    have after := history.statements rest (first.moves p) (s.statements [first])
      routes.statement.fits _ (history.rests here rfl (.of_eq rfl rfl rfl))
    rw [statements_cons, allMoments, ← List.append_assoc]
    exact after

end

theorem run (history : History Inv) {options : Options} (start : Inv [] (empty options))
    (sts : List Statement) : Inv (momentsOf options sts) (ofStatements options sts) := by
  have written := history.statements sts .start (empty options)
    ⟨rfl, by simp [empty], Nat.le_refl _⟩ [] start
  rw [List.nil_append] at written
  exact history.rests written ((symbols_dropBlocks ..).trans (symbols_leave ..))
    ((KeepsNames.leave _ "end of input").trans (.chores (.dropBlocks _ "end of input")))

end History

section

variable {K : Type} (know : Sketch → K) (note : K → Moment → K)

def Told (k : K) : List Moment → Prop
  | [] => True
  | m :: rest => know m.sketch = k ∧ Told (note k m) rest

theorem told_append {k : K} {ms more : List Moment} :
    Told know note k (ms ++ more) ↔
      Told know note k ms ∧ Told know note (ms.foldl note k) more := by
  induction ms generalizing k with
  | nil => exact ⟨fun told => ⟨trivial, told⟩, And.right⟩
  | cons m rest ih => rw [List.cons_append, Told, Told, ih, and_assoc, List.foldl_cons]

/-- Writing from `s` to `s'`, at these moments, learns what is noted and nothing else. -/
structure Hears (s : Sketch) (ms : List Moment) (s' : Sketch) : Prop where
  told : Told know note (know s) ms
  learned : know s' = ms.foldl note (know s)

structure Log : Prop where
  rests : ∀ {s t : Sketch}, t.symbols = s.symbols → t.globalNames = s.globalNames →
    know t = know s
  silent : ∀ (k : K) (home : Home) (s : Sketch) (st : Statement),
    st.isParted = true → note k ⟨home, s, .statement st⟩ = k
  performs : ∀ {home : Home} {s : Sketch} (n : Nat) (a : Action), s.scope = home.scope →
    a.isParted = false → know (s.perform a) = note (know s) ⟨home, s, .statement (.plain n a)⟩
  declares : ∀ {home : Home} {s : Sketch} (isStatic : Bool) (d : Declaration),
    s.scope = home.scope →
    know (s.emitDeclaration isStatic d) = note (know s) ⟨home, s, .declares isStatic d⟩
  takes : ∀ (home inside : Home) (s : Sketch) (p : Parameter),
    know (s.parameterText p).2.2 = note (know s) ⟨home, s, .takes inside p⟩
  supplies : ∀ (k : K) (home : Home) (s : Sketch) (p : Parameter),
    note k ⟨home, s, .supplies p⟩ = k

end

section

variable {K : Type} {know : Sketch → K} {note : K → Moment → K}

namespace Hears

variable {s t s' s'' : Sketch} {ms more : List Moment}

theorem nothing (same : know s' = know s) : Hears know note s [] s' := ⟨trivial, same⟩

theorem trans (first : Hears know note s ms s') (second : Hears know note s' more s'') :
    Hears know note s (ms ++ more) s'' where
  told := (told_append know note).2 ⟨first.told, first.learned ▸ second.told⟩
  learned := by rw [second.learned, first.learned, List.foldl_append]

theorem congr (hears : Hears know note s ms s') (after : know s'' = know s') :
    Hears know note s ms s'' :=
  ⟨hears.told, after.trans hears.learned⟩

theorem step {m : Moment} (here : know m.sketch = know s) (noted : know s' = note (know s) m) :
    Hears know note s [m] s' :=
  ⟨⟨here, trivial⟩, noted⟩

theorem cons {m : Moment} (here : know m.sketch = know s) (silent : note (know s) m = know s)
    (hears : Hears know note s ms s') : Hears know note s (m :: ms) s' where
  told := ⟨here, silent.symm ▸ hears.told⟩
  learned := by rw [List.foldl_cons, silent, hears.learned]

end Hears

namespace Log

theorem declarations (log : Log know note) (home : Home) (isStatic : Bool)
    (ds : List Declaration) : ∀ s : Sketch, s.scope = home.scope →
      Hears know note s (declarationMoments home isStatic s ds)
        (s.emitDeclarations isStatic ds) := by
  induction ds with
  | nil => exact fun s _ => .nothing rfl
  | cons d rest ih =>
    intro s scope
    have step : Hears know note s [⟨home, s, .declares isStatic d⟩]
        (s.emitDeclaration isStatic d) := .step rfl (log.declares isStatic d scope)
    exact step.trans (ih _ ((Appends.emitDeclaration s isStatic d).scope.trans scope))

theorem parameters (log : Log know note) (home inside : Home) (ps : List Parameter) :
    ∀ s : Sketch, Hears know note s (parameterMoments home inside s ps)
      (s.parameterTexts ps).2.2 := by
  induction ps with
  | nil => exact fun s => .nothing rfl
  | cons p rest ih =>
    intro s
    have step : Hears know note s [⟨home, s, .takes inside p⟩] (s.parameterText p).2.2 :=
      .step rfl (log.takes home inside s p)
    exact step.trans (.cons rfl (log.supplies ..) (ih (s.parameterText p).2.2))

theorem procedureStart (log : Log know note) (s : Sketch) (p : Position) (h : ProcedureHeader) :
    Hears know note s (s.actionMoments p (.procedureStart h)) (s.procedureStart h) := by
  have entered (scope : Scope) : know (s.enterRoutine scope) = know s :=
    log.rests (symbols_enterRoutine s scope) (KeepsNames.enterRoutine s scope).globalNames
  rw [actionMoments, Sketch.procedureStart, ProcedureHeader.scope]
  cases h.isSetup with
  | true => exact .nothing (entered .setup)
  | false =>
    cases h.isLoop with
    | true => exact .nothing (entered .loop)
    | false =>
      exact (log.parameters p.home (p.enter .procedure).home h.parameters s).congr
        (log.rests (symbols_openProcedure s h) (Enters.openProcedure s h).globalNames)

theorem plain (log : Log know note) {p : Position} {s : Sketch} (fits : Fits p s) (n : Nat)
    (a : Action) : Hears know note s (s.moments p (.plain n a)) (s.perform a) := by
  rw [moments]
  -- the three that have parts are noted part by part, after the silent moment of the whole
  cases a with
  | dim ds =>
    exact .cons rfl (log.silent _ _ _ _ rfl) (log.declarations p.home false ds s fits.scope)
  | static ds =>
    exact .cons rfl (log.silent _ _ _ _ rfl) (log.declarations p.home true ds s fits.scope)
  | procedureStart h =>
    exact .cons rfl (log.silent _ _ _ _ rfl) (log.procedureStart s p h)
  | _ => exact .step rfl (log.performs n _ fits.scope rfl)

theorem history (log : Log know note) (k : K) : History fun earlier s =>
    know s = earlier.foldl note k ∧ Told know note k earlier where
  rests inv symbols names := ⟨(log.rests symbols names.globalNames).trans inv.1, inv.2⟩
  holds {earlier s} home st inv held := by
    refine ⟨?_, (told_append know note).2 ⟨inv.2, inv.1, trivial⟩⟩
    have parted : st.isParted = true := by
      cases st with
      | plain n a => exact absurd rfl (held n a)
      | _ => rfl
    rw [List.foldl_append, List.foldl_cons, log.silent _ _ _ _ parted, List.foldl_nil, inv.1]
  performs n a inv fits := by
    obtain ⟨told, learned⟩ := log.plain fits n a
    rw [inv.1] at told learned
    exact ⟨learned.trans List.foldl_append.symm, (told_append know note).2 ⟨inv.2, told⟩⟩
  tasks {_ s} _ _ _ _ inv :=
    ⟨(log.rests (symbols_task s) (Enters.task s).globalNames).trans inv.1, inv.2⟩
  resumes {_ _ s t} _ inv := ⟨(@log.rests t (t.resume s) rfl rfl).trans inv.1, inv.2⟩

variable {options : Options} {sts : List Statement}

theorem known_end (log : Log know note) (options : Options) (sts : List Statement) :
    know (ofStatements options sts) = (momentsOf options sts).foldl note (know (empty options)) :=
  ((log.history _).run ⟨rfl, trivial⟩ sts).1

theorem known_at (log : Log know note) {earlier later : List Moment} {m : Moment}
    (split : momentsOf options sts = earlier ++ m :: later) :
    know m.sketch = earlier.foldl note (know (empty options)) := by
  have told := ((log.history (know (empty options))).run ⟨rfl, trivial⟩ sts).2
  rw [split] at told
  exact ((told_append know note).1 told).2.1

end Log

end

end Sketch

end BasicSketch
