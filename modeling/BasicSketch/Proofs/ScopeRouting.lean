import BasicSketch.Proofs.Appending
import BasicSketch.Proofs.Declarations

set_option autoImplicit false

/-! Where code goes. -/

namespace BasicSketch

open SketchLine

def Moment.Stands (m : Moment) : Prop :=
  m.sketch.scope = m.home.scope ∧
    (m.sketch.scope = .procedure ↔ m.sketch.open?.isSome = true)

namespace Sketch

structure Fits (p : Position) (s : Sketch) : Prop where
  scope : s.scope = p.home.scope
  opened : s.scope = .procedure ↔ s.open?.isSome = true
  number : p.home.number ≤ p.begun

variable {p : Position} {s : Sketch}

theorem Fits.landing (fits : Fits p s) : s.landing s.scope = p.home.scope := by
  rw [← fits.scope]
  cases inside : s.scope with
  | procedure => rw [Sketch.landing, if_pos (fits.opened.1 inside)]
  | _ => rfl

theorem Fits.mute {s' : Sketch} (fits : Fits p s) (mute : Mute s s') : Fits p s' :=
  ⟨mute.scope.trans fits.scope, by rw [mute.scope, mute.opened]; exact fits.opened, fits.number⟩

theorem finishProcedure_frame {q : Procedure} (opened : s.open? = some q) :
    ∃ signatures events, s.finishProcedure =
      { s with
        open? := none
        procedures := Procedure.collect s.procedures q
        signatures
        events } := by
  obtain ⟨procedures, signatures, events, eq, -⟩ := addProcedure_frame { s with open? := none } q
  have collected := procedures_addProcedure { s with open? := none } q
  rw [eq] at collected
  refine ⟨signatures, events, ?_⟩
  rw [finishProcedure, opened]
  exact eq.trans (by rw [show procedures = Procedure.collect s.procedures q from collected])

theorem ended_note (p : Position) (s : Sketch) (symbols : Symbols) (blocks : List Block)
    (events : List Event) : ended { s with symbols, blocks, events } p = s.ended p := by
  have same : ({ s with symbols, blocks, events }.push false .procedure 0 "\x7d").open? =
      (s.push false .procedure 0 "\x7d").open? := by
    unfold push
    cases s.capture with
    | some texts => rfl
    | none =>
      dsimp only
      split <;> (unfold append; dsimp only; split <;> rfl)
  rw [ended, ended, same]

theorem enterProcedure_unwritten {s : Sketch} (outside : s.scope = .global)
    (signature header : String) :
    (s.enterProcedure signature header).procedures = s.procedures ∧
      (s.enterProcedure signature header).buffer .procedure = [] := by
  rw [enterProcedure_eq, leave_of_global outside]
  refine ⟨by simp [head, begin], ?_⟩
  simp only [head, buffer, Option.map_map, Function.comp_def]
  cases ((s.begin signature).push false .procedure 0 header).open? <;> rfl

theorem task_frame (s : Sketch) :
    s.task.scope = .procedure ∧ s.task.open?.isSome = true ∧ s.task.author = s.announce.author ∧
      s.task.capture.isSome = s.announce.capture.isSome ∧
      s.task.procedures = s.announce.procedures ∧
      (∀ b, b ≠ .procedure → s.task.buffer b = s.announce.buffer b) ∧
      s.task.buffer .procedure = [] := by
  let id := s.everyCount + 1
  obtain ⟨scope, opened, -, author, capture, -, lines⟩ := @enterProcedure_outside
    s.announce.suspend rfl s!"void _every_task_{id}();" s!"void _every_task_{id}() \x7b"
  obtain ⟨procedures, unwritten⟩ := @enterProcedure_unwritten
    s.announce.suspend rfl s!"void _every_task_{id}();" s!"void _every_task_{id}() \x7b"
  refine ⟨scope, opened, author, capture, procedures, fun b plain => ?_, unwritten⟩
  exact (lines b plain).trans (@buffer_plain s.announce s.announce.suspend rfl rfl rfl b plain)

def Opens (p p' : Position) (home : Home) : Prop :=
  p.home = home ∨ p.begun < home.number ∧ home.number ≤ p'.begun

def own (p : Position) (s : Sketch) (n : Nat) : List SketchLine :=
  if p.home = .procedure n then routed (s.buffer .procedure) else []

def Survives (n : Nat) (q : Procedure) (done : List (Nat × Procedure)) (p : Position)
    (s : Sketch) : Prop :=
  (p.home = .procedure n ∧ ∃ q', s.open? = some q' ∧ q.Continues q') ∨
    ∃ q', (n, q') ∈ done ∧ q.Continues q'

def Lasts (home : Home) (t : Sketch) (done : List (Nat × Procedure)) (p : Position)
    (s : Sketch) : Prop :=
  (∀ b, b ≠ .procedure → t.buffer b <+: s.buffer b) ∧
    ∀ n q, home = .procedure n → t.open? = some q → Survives n q done p s

theorem Lasts.refl (p : Position) (s : Sketch) (done : List (Nat × Procedure)) :
    Lasts p.home s done p s :=
  ⟨fun _ _ => List.prefix_rfl, fun _ q home opened => Or.inl ⟨home, q, opened, rfl,
    List.prefix_rfl⟩⟩

/-- All that is written between two places. -/
structure Routes (p : Position) (s : Sketch) (ms : List Moment) (done : List (Nat × Procedure))
    (p' : Position) (s' : Sketch) : Prop where
  begun : p.begun ≤ p'.begun
  fits : Fits p' s'
  author : s'.author = s.author
  capture : s'.capture.isSome = s.capture.isSome
  mute : s.capture.isSome = true → ∀ m ∈ ms, m.lines = []
  here : p'.home ≠ .outside → Opens p p' p'.home
  homes : ∀ m ∈ ms, m.home ≠ .outside → Opens p p' m.home
  stands : ∀ m ∈ ms, m.isStatement = true → m.Stands
  grows : ∀ b, b ≠ .procedure → s.buffer b <+: s'.buffer b
  plain : ∀ b, b ≠ .procedure →
    routed (s'.buffer b) = routed (s.buffer b) ++ codeOf (·.scope == b) ms
  collected : s'.procedures = (done.map Prod.snd).foldl Procedure.collect s.procedures
  distinct : (done.map Prod.fst).Nodup
  finished : ∀ d ∈ done, Opens p p' (.procedure d.1) ∧ p'.home ≠ .procedure d.1 ∧
    routed d.2.body = own p s d.1 ++ codeOf (· == .procedure d.1) ms
  current : ∀ n, p'.home = .procedure n →
    own p' s' n = own p s n ++ codeOf (· == .procedure n) ms
  covered : ∀ n, (p.home = .procedure n ∨ ∃ m ∈ ms, m.home = .procedure n) →
    p'.home = .procedure n ∨ n ∈ done.map Prod.fst
  kept : ∀ n q, p.home = .procedure n → s.open? = some q → Survives n q done p' s'
  lasting : ∀ m ∈ ms, m.isStatement = true → ∀ t ∈ m.stages, Lasts m.home t done p' s'

namespace Routes

variable {p p' p'' : Position} {s s' s'' : Sketch} {ms more : List Moment}
  {done rest : List (Nat × Procedure)}

variable {n : Nat} {home : Home}

theorem number_le (fits : Fits p s) (begun : p.begun ≤ p'.begun) (opens : Opens p p' home) :
    home.number ≤ p'.begun := by
  rcases opens with here | ⟨-, le⟩
  · exact here ▸ Nat.le_trans fits.number begun
  · exact le

theorem closed (fits : Fits p s) (first : Routes p s ms done p' s') (opens : Opens p p' home)
    (away : p'.home ≠ home) : ¬ Opens p' p'' home := by
  rintro (here | ⟨later, -⟩)
  · exact away here
  · exact absurd (number_le fits first.begun opens) (Nat.not_le.2 later)

theorem opens (first : Routes p s ms done p' s') (second : p'.begun ≤ p''.begun)
    (inside : home ≠ .outside) (opens : Opens p' p'' home) : Opens p p'' home := by
  rcases opens with rfl | ⟨later, le⟩
  · exact (first.here inside).imp_right fun ⟨lt, le⟩ => ⟨lt, Nat.le_trans le second⟩
  · exact Or.inr ⟨Nat.lt_of_le_of_lt first.begun later, le⟩

theorem homes_procedure (first : Routes p s ms done p' s') :
    ∀ m ∈ ms, (m.home == .procedure n) = true → Opens p p' (.procedure n) := by
  intro m mem inside
  obtain home : m.home = .procedure n := by simpa using inside
  exact home ▸ first.homes m mem (home ▸ Home.procedure_ne_outside n)

theorem carry (fits : Fits p s) (first : Routes p s ms done p' s')
    (opens : Opens p' p'' (.procedure n)) :
    own p' s' n = own p s n ++ codeOf (· == .procedure n) ms := by
  by_cases here : p'.home = .procedure n
  · exact first.current n here
  · obtain ⟨later, -⟩ := opens.resolve_left here
    have unopened : ¬ Opens p p' (.procedure n) := fun opens =>
      absurd (number_le fits first.begun opens) (Nat.not_le.2 later)
    have unwritten : codeOf (· == .procedure n) ms = [] :=
      codeOf_eq_nil fun m mem inside => absurd (first.homes_procedure m mem inside) unopened
    have elsewhere : p.home ≠ .procedure n := fun home => unopened (Or.inl home)
    rw [own, own, if_neg here, if_neg elsewhere, unwritten]
    rfl

theorem survives (second : Routes p' s' more rest p'' s'') {n : Nat} {q : Procedure}
    (survives : Survives n q done p' s') : Survives n q (done ++ rest) p'' s'' := by
  rcases survives with ⟨here, q', opened, continues⟩ | ⟨q', mem, continues⟩
  · rcases second.kept n q' here opened with
      ⟨still, q'', opened', continues'⟩ | ⟨q'', mem, continues'⟩
    · exact Or.inl ⟨still, q'', opened', continues.trans continues'⟩
    · exact Or.inr ⟨q'', List.mem_append_right _ mem, continues.trans continues'⟩
  · exact Or.inr ⟨q', List.mem_append_left _ mem, continues⟩

theorem trans (fits : Fits p s) (first : Routes p s ms done p' s')
    (second : Routes p' s' more rest p'' s'') :
    Routes p s (ms ++ more) (done ++ rest) p'' s'' where
  begun := Nat.le_trans first.begun second.begun
  fits := second.fits
  author := second.author.trans first.author
  capture := second.capture.trans first.capture
  mute capturing m mem := by
    rcases List.mem_append.1 mem with here | there
    · exact first.mute capturing m here
    · exact second.mute (first.capture.trans capturing) m there
  here inside := first.opens second.begun inside (second.here inside)
  homes m mem inside := by
    rcases List.mem_append.1 mem with here | there
    · exact (first.homes m here inside).imp_right fun ⟨lt, le⟩ => ⟨lt, Nat.le_trans le second.begun⟩
    · exact first.opens second.begun inside (second.homes m there inside)
  stands := List.forall_mem_append.2 ⟨first.stands, second.stands⟩
  grows b plain := (first.grows b plain).trans (second.grows b plain)
  plain b plain := by
    rw [second.plain b plain, first.plain b plain, codeOf_append, List.append_assoc]
  collected := by
    rw [second.collected, first.collected, List.map_append, List.foldl_append]
  distinct := by
    rw [List.map_append]
    refine List.nodup_append.2 ⟨first.distinct, second.distinct, ?_⟩
    rintro n inFirst n' inSecond rfl
    obtain ⟨d, mem, rfl⟩ := List.mem_map.1 inFirst
    obtain ⟨d', mem', same⟩ := List.mem_map.1 inSecond
    obtain ⟨opens, away, -⟩ := first.finished d mem
    exact first.closed fits opens away (same ▸ (second.finished d' mem').1)
  finished d mem := by
    rcases List.mem_append.1 mem with here | there
    · obtain ⟨opens, away, code⟩ := first.finished d here
      have shut : ¬ Opens p' p'' (.procedure d.1) := first.closed fits opens away
      have unwritten : codeOf (· == .procedure d.1) more = [] :=
        codeOf_eq_nil fun m mem inside => absurd (second.homes_procedure m mem inside) shut
      refine ⟨opens.imp_right fun ⟨lt, le⟩ => ⟨lt, Nat.le_trans le second.begun⟩,
        fun home => ?_, ?_⟩
      · exact shut (home ▸ second.here (home ▸ Home.procedure_ne_outside d.1))
      · rw [code, codeOf_append, unwritten, List.append_nil]
    · obtain ⟨opens, away, code⟩ := second.finished d there
      refine ⟨first.opens second.begun (Home.procedure_ne_outside d.1) opens, away, ?_⟩
      rw [code, first.carry fits opens, codeOf_append, List.append_assoc]
  current n home := by
    have opens := home ▸ second.here (home ▸ Home.procedure_ne_outside n)
    rw [second.current n home, first.carry fits opens, codeOf_append, List.append_assoc]
  covered n opened := by
    rw [List.map_append]
    have onward : (p.home = .procedure n ∨ ∃ m ∈ ms, m.home = .procedure n) ∨
        ∃ m ∈ more, m.home = .procedure n := by
      rcases opened with here | ⟨m, mem, home⟩
      · exact Or.inl (Or.inl here)
      · rcases List.mem_append.1 mem with first | second
        · exact Or.inl (Or.inr ⟨m, first, home⟩)
        · exact Or.inr ⟨m, second, home⟩
    rcases onward with first' | second'
    · rcases first.covered n first' with here | mem
      · exact (second.covered n (Or.inl here)).imp_right (List.mem_append_right _)
      · exact Or.inr (List.mem_append_left _ mem)
    · exact (second.covered n (Or.inr second')).imp_right (List.mem_append_right _)
  kept n q home opened := second.survives (first.kept n q home opened)
  lasting m mem isStatement t stage := by
    rcases List.mem_append.1 mem with here | there
    · obtain ⟨grows, survive⟩ := first.lasting m here isStatement t stage
      exact ⟨fun b plain => (grows b plain).trans (second.grows b plain),
        fun n q home opened => second.survives (survive n q home opened)⟩
    · obtain ⟨grows, survive⟩ := second.lasting m there isStatement t stage
      refine ⟨grows, fun n q home opened => ?_⟩
      exact (survive n q home opened).imp_right fun ⟨q', mem, continues⟩ =>
        ⟨q', List.mem_append_right _ mem, continues⟩

theorem silent (fits' : Fits p' s') (begun : p'.begun = p.begun)
    (here : p'.home = .outside ∨ p.home = p'.home)
    (home : ∀ n, p'.home = .procedure n ↔ p.home = .procedure n) (author : s'.author = s.author)
    (capture : s'.capture.isSome = s.capture.isSome) (procedures : s'.procedures = s.procedures)
    (title : s'.open?.map Procedure.title = s.open?.map Procedure.title)
    (lines : ∀ b, ∃ new, s'.buffer b = s.buffer b ++ new ∧ routed new = []) :
    Routes p s [] [] p' s' where
  begun := Nat.le_of_eq begun.symm
  fits := fits'
  author := author
  capture := capture
  mute := by simp
  here inside := Or.inl (here.resolve_left inside)
  homes := by simp
  stands := by simp
  grows b _ := by
    obtain ⟨new, eq, -⟩ := lines b
    exact eq ▸ List.prefix_append _ _
  plain b _ := by
    obtain ⟨new, eq, absent⟩ := lines b
    rw [eq, routed_append, absent]
    rfl
  collected := procedures
  distinct := List.nodup_nil
  finished := by simp
  current n home' := by
    obtain ⟨new, eq, absent⟩ := lines .procedure
    rw [own, own, if_pos home', if_pos ((home n).1 home'), eq, routed_append, absent]
    rfl
  covered n opened := by simpa [home n] using opened
  kept n q home' opened := by
    obtain ⟨new, eq, -⟩ := lines .procedure
    exact Or.inl ⟨(home n).2 home', continues_of_title title (eq ▸ List.prefix_append _ _) opened⟩
  lasting := by simp

theorem still (fits : Fits p s) (mute : Mute s s') : Routes p s [] [] p s' :=
  silent (fits.mute mute) rfl (Or.inr rfl)
    (fun _ => Iff.rfl) mute.author mute.capture mute.procedures
    mute.title mute.lines

theorem refl (fits : Fits p s) : Routes p s [] [] p s :=
  still fits (.of_eq rfl rfl rfl rfl rfl fun _ => rfl)

theorem ends {q : Procedure} (home : p.home = .procedure n) (opened : s.open? = some q) :
    Routes p s [] [(n, q)] p.leave { s.finishProcedure with scope := .global } := by
  obtain ⟨signatures, events, eq⟩ := finishProcedure_frame opened
  rw [eq]
  clear eq
  have lines := @buffer_plain s { s with
    open? := none, procedures := Procedure.collect s.procedures q, signatures, events,
    scope := .global } rfl rfl rfl
  have number {n' : Nat} (home' : p.home = .procedure n') : n' = n :=
    (congrArg Home.number (home.symm.trans home')).symm
  exact
    { begun := Nat.le_refl _
      fits := ⟨rfl, by simp, Nat.zero_le _⟩
      author := rfl
      capture := rfl
      mute := by simp
      here := fun inside => absurd rfl inside
      homes := by simp
      stands := by simp
      grows := fun b plain => (lines b plain).symm ▸ List.prefix_rfl
      plain := fun b plain => by rw [lines b plain]; exact (List.append_nil _).symm
      collected := rfl
      distinct := by simp
      finished := by
        intro d mem
        obtain rfl := List.mem_singleton.1 mem
        refine ⟨Or.inl home, by simp [Position.leave, Home.outside, Home.procedure], ?_⟩
        rw [own, if_pos home, buffer, opened]
        exact (List.append_nil _).symm
      current := by simp [Position.leave, Home.outside, Home.procedure]
      covered := fun n' opens => by
        simp only [List.not_mem_nil, false_and, exists_false, or_false] at opens
        exact Or.inr (by simp [number opens])
      kept := fun n' q' home' opened' => by
        obtain rfl := Option.some.inj (opened.symm.trans opened')
        exact Or.inr ⟨q, by simp [number home'], rfl, List.prefix_rfl⟩
      lasting := by simp }

theorem enters (outside : p.home.scope = .global) {scope : Scope}
    (fits : Fits (p.enter scope) s') (author : s'.author = s.author)
    (capture : s'.capture.isSome = s.capture.isSome) (procedures : s'.procedures = s.procedures)
    (lines : ∀ b, b ≠ .procedure → s'.buffer b = s.buffer b)
    (unwritten : s'.buffer .procedure = []) :
    Routes p s [] [] (p.enter scope) s' := by
  have away (n : Nat) : p.home ≠ .procedure n := by
    intro home
    simp [home, Home.procedure] at outside
  exact
    { begun := Nat.le_succ _
      fits := fits
      author := author
      capture := capture
      mute := by simp
      here := fun _ => Or.inr ⟨Nat.lt_succ_self _, Nat.le_refl _⟩
      homes := by simp
      stands := by simp
      grows := fun b plain => (lines b plain).symm ▸ List.prefix_rfl
      plain := fun b plain => by rw [lines b plain]; exact (List.append_nil _).symm
      collected := procedures
      distinct := List.nodup_nil
      finished := by simp
      current := fun n home => by
        rw [own, own, if_neg (away n), if_pos home, unwritten]
        rfl
      covered := fun n opens => by simp [away n] at opens
      kept := fun n q home => absurd home (away n)
      lasting := by simp }

variable {m : Moment}

theorem hear (fits : Fits p s) (routes : Routes p s ms done p' s') (home : m.home = p.home)
    (begins : m.isStatement = true → m.sketch = s ∧ Lasts p.home m.after done p' s')
    (absent : m.lines = []) : Routes p s (m :: ms) done p' s' := by
  have skip (here : Home → Bool) : codeOf here (m :: ms) = codeOf here ms := by
    rw [codeOf_cons, absent, ite_self, List.nil_append]
  exact
    { routes with
      mute := fun capturing => List.forall_mem_cons.2 ⟨absent, routes.mute capturing⟩
      homes := List.forall_mem_cons.2 ⟨fun _ => Or.inl home.symm, routes.homes⟩
      stands := by
        refine List.forall_mem_cons.2 ⟨fun isStatement => ?_, routes.stands⟩
        rw [Moment.Stands, (begins isStatement).1, home]
        exact ⟨fits.scope, fits.opened⟩
      plain := fun b plain => by rw [skip, routes.plain b plain]
      finished := fun d mem => by rw [skip]; exact routes.finished d mem
      current := fun n here => by rw [skip]; exact routes.current n here
      covered := fun n opens => by
        refine routes.covered n ?_
        rcases opens with here | ⟨m', mem, here⟩
        · exact Or.inl here
        · rcases List.mem_cons.1 mem with rfl | later
          · exact Or.inl (home ▸ here)
          · exact Or.inr ⟨m', later, here⟩
      lasting := by
        refine List.forall_mem_cons.2 ⟨fun isStatement => ?_, routes.lasting⟩
        obtain ⟨same, behind⟩ := begins isStatement
        rw [Moment.stages, home, same]
        exact List.forall_mem_cons.2
          ⟨⟨routes.grows, routes.kept⟩, List.forall_mem_singleton.2 behind⟩ }

theorem hearAll (fits : Fits p s) (routes : Routes p s ms done p' s')
    (homes : ∀ m ∈ more, m.home = p.home ∧ m.isStatement = false) :
    Routes p s (more ++ ms) done p' s' := by
  induction more with
  | nil => exact routes
  | cons m rest ih =>
    obtain ⟨home, other⟩ := homes m List.mem_cons_self
    have behind := ih fun m mem => homes m (List.mem_cons_of_mem _ mem)
    refine behind.hear fits home (by simp [other]) ?_
    refine Moment.lines_unrouted fun st deed => ?_
    simp [Moment.isStatement, deed] at other

theorem none_done (routes : Routes p s ms done p s') : done = [] := by
  refine List.eq_nil_iff_forall_not_mem.2 fun d mem => ?_
  obtain ⟨opens, away, -⟩ := routes.finished d mem
  rcases opens with here | ⟨lt, le⟩
  · exact away here
  · exact absurd le (Nat.not_le.2 lt)

theorem speak (fits : Fits p s) (routes : Routes p s ms done p s') (home : m.home = p.home)
    (begins : m.sketch = s) (others : ∀ m ∈ ms, m.lines = [])
    (same : ∀ b, s'.buffer b = s.buffer b) (appends : Appends s' s'') (behind : m.after = s'')
    (signed : routed m.lines = m.lines) (captured : s.capture.isSome = true → m.lines = [])
    (spoken : ∀ b, s''.buffer b = s.buffer b ++ if b = p.home.scope then m.lines else []) :
    Routes p s (m :: ms) [] p s'' := by
  have lines (b : Scope) :
      s''.buffer b = s'.buffer b ++ if b = p.home.scope then m.lines else [] := by
    rw [same, spoken]
  have fits'' : Fits p s'' :=
    ⟨appends.scope.trans routes.fits.scope, by
      rw [appends.scope, appends.opened]; exact routes.fits.opened, fits.number⟩
  have none_done := routes.none_done
  subst none_done
  have silent (here : Home → Bool) : codeOf here ms = [] :=
    codeOf_eq_nil fun m mem _ => others m mem
  have code (here : Home → Bool) :
      codeOf here (m :: ms) = if here p.home then m.lines else [] := by
    rw [codeOf_cons, silent, home, List.append_nil]
  have grown (b : Scope) : s'.buffer b <+: s''.buffer b := lines b ▸ List.prefix_append _ _
  have survives {n : Nat} {q : Procedure} (survives : Survives n q [] p s') :
      Survives n q [] p s'' := by
    obtain ⟨here, q', opened, continues⟩ | ⟨q', mem, -⟩ := survives
    · obtain ⟨q'', opened', continues'⟩ :=
        continues_of_title appends.title (grown .procedure) opened
      exact Or.inl ⟨here, q'', opened', continues.trans continues'⟩
    · simp at mem
  exact
    { begun := Nat.le_refl _
      fits := fits''
      author := appends.author.trans routes.author
      capture := appends.capture.trans routes.capture
      mute := fun capturing => List.forall_mem_cons.2 ⟨captured capturing, others⟩
      here := routes.here
      homes := List.forall_mem_cons.2 ⟨fun _ => Or.inl home.symm, routes.homes⟩
      stands := by
        refine List.forall_mem_cons.2 ⟨fun _ => ?_, routes.stands⟩
        rw [Moment.Stands, begins, home]
        exact ⟨fits.scope, fits.opened⟩
      grows := fun b plain => (routes.grows b plain).trans (grown b)
      plain := fun b plain => by
        rw [lines b, routed_append, routes.plain b plain, silent, code, List.append_nil]
        by_cases here : b = p.home.scope
        · rw [if_pos here, signed]
          simp [here]
        · rw [if_neg here]
          simp [Ne.symm here, routed]
      collected := appends.procedures.trans routes.collected
      distinct := List.nodup_nil
      finished := by simp
      current := fun n here => by
        have before := routes.current n here
        have inside : Scope.procedure = p.home.scope := by rw [here]; rfl
        rw [own, if_pos here, silent, List.append_nil] at before
        rw [own, if_pos here, lines .procedure, if_pos inside, routed_append, before, signed, code]
        simp [here]
      covered := fun n opens => by
        refine routes.covered n ?_
        rcases opens with here | ⟨m', mem, here⟩
        · exact Or.inl here
        · rcases List.mem_cons.1 mem with rfl | later
          · exact Or.inl (home ▸ here)
          · exact Or.inr ⟨m', later, here⟩
      kept := fun n q here opened => survives (routes.kept n q here opened)
      lasting := by
        refine List.forall_mem_cons.2 ⟨fun _ => ?_, fun m mem isStatement t stage => ?_⟩
        · rw [Moment.stages, begins, behind, home]
          refine List.forall_mem_cons.2 ⟨?_, List.forall_mem_singleton.2 (Lasts.refl p s'' [])⟩
          exact ⟨fun b plain => (routes.grows b plain).trans (grown b),
            fun n q here opened => survives (routes.kept n q here opened)⟩
        · obtain ⟨grows, survive⟩ := routes.lasting m mem isStatement t stage
          exact ⟨fun b plain => (grows b plain).trans (grown b),
            fun n q here opened => survives (survive n q here opened)⟩ }

theorem exits (fits : Fits p s) (plain : s.scope ≠ .procedure) :
    Routes p s [] [] p.leave { s with scope := .global } := by
  have closed : s.open?.isSome ≠ true := fun opened => plain (fits.opened.2 opened)
  refine silent ⟨rfl, by simpa using closed, Nat.zero_le _⟩ rfl (Or.inl rfl)
    (fun n => ⟨fun home => ?_, fun home => ?_⟩) rfl rfl rfl rfl
    fun b => ⟨[], by cases b <;> simp [buffer], rfl⟩
  · simp [Position.leave, Home.outside, Home.procedure] at home
  · simp [fits.scope, home, Home.procedure] at plain

theorem endProcedure (fits : Fits p s) (unsigned : s.Unsigned) :
    Routes p s [] (s.ended p) p.leave s.endProcedure := by
  have dropped (closer : String) : Mute s (s.dropBlocks closer) :=
    Mute.chores unsigned (.dropBlocks s closer)
  unfold Sketch.endProcedure ended
  cases inside : s.scope with
  | global =>
    have mute := Mute.chores unsigned (.report s (.endOutside s.line))
    have left := Routes.exits (fits.mute mute) (by simp [mute.scope, inside])
    rw [show { s.report (.endOutside s.line) with scope := .global } =
      s.report (.endOutside s.line) by rw [← inside]; rfl] at left
    exact (Routes.still fits mute).trans fits left
  | setup | loop =>
    have mute := dropped "End Sub"
    exact (Routes.still fits mute).trans fits
      (Routes.exits (fits.mute mute) (by simp [mute.scope, inside]))
  | procedure =>
    have pushed := (dropped "End").trans
      (Mute.push ((dropped "End").unsigned unsigned) false .procedure 0 "\x7d")
    have here := (fits.mute pushed).opened.1 (pushed.scope.trans inside)
    obtain ⟨q, opened⟩ := Option.isSome_iff_exists.1 here
    have home : p.home = .procedure p.home.number := Home.eq_procedure (fits.scope ▸ inside)
    have all := (Routes.still fits pushed).trans fits (Routes.ends home opened)
    obtain ⟨blocks, events, eq⟩ := dropBlocks_frame s "End"
    have same := ended_note p s s.symbols blocks events
    rw [← eq, ended, ended, if_pos inside, if_pos ((dropped "End").scope.trans inside), opened]
      at same
    rw [if_pos rfl, ← same]
    exact all

theorem leave (fits : Fits p s) (unsigned : s.Unsigned) (reason : String) :
    Routes p s [] (s.ended p) p.leave (s.leave reason) := by
  unfold Sketch.leave
  split
  · rename_i outside
    have inside : s.scope = .global := by simpa using outside
    have left := Routes.exits fits (by simp [inside])
    rw [show { s with scope := .global } = s by rw [← inside]] at left
    rw [ended, if_neg (by simp [inside])]
    exact left
  · have mute := Mute.chores unsigned (.report s (.unclosedProcedure s.line reason))
    have ends := Routes.endProcedure (fits.mute mute) (mute.unsigned unsigned)
    rw [show (s.report _).ended p = s.ended p from ended_note p s s.symbols s.blocks _] at ends
    exact (Routes.still fits mute).trans fits ends

theorem enterRoutine (fits : Fits p s) (unsigned : s.Unsigned) {routine : Scope}
    (plain : routine ≠ .procedure) :
    Routes p s [] (s.ended p) (p.enter routine) (s.enterRoutine routine) := by
  have left := Routes.leave fits unsigned "next procedure"
  have outside : (s.leave "next procedure").scope = .global := scope_leave s _
  have closed : (s.leave "next procedure").open?.isSome ≠ true := by
    intro opened
    have inside := left.fits.opened.2 opened
    simp [outside] at inside
  have entered : Routes p.leave (s.leave "next procedure") [] [] (p.leave.enter routine)
      (s.enterRoutine routine) := by
    refine Routes.enters rfl ⟨rfl, ?_, Nat.le_refl _⟩ rfl rfl rfl (buffer_plain rfl rfl rfl) ?_
    · simpa [Sketch.enterRoutine, plain] using closed
    · have absent : (s.leave "next procedure").open? = none := by simpa using closed
      simp [Sketch.enterRoutine, buffer, absent]
  have all := left.trans fits entered
  rwa [List.append_nil, List.append_nil] at all

theorem enterProcedure (fits : Fits p s) (unsigned : s.Unsigned) (signature header : String) :
    Routes p s [] (s.ended p) (p.enter .procedure) (s.enterProcedure signature header) := by
  have left := Routes.leave fits unsigned "next procedure"
  have outside : (s.leave "next procedure").scope = .global := scope_leave s _
  have again : s.enterProcedure signature header =
      (s.leave "next procedure").enterProcedure signature header := by
    rw [enterProcedure_eq, enterProcedure_eq, leave_of_global outside]
  obtain ⟨scope, opened, -, author, capture, -, lines⟩ :=
    enterProcedure_outside outside signature header
  obtain ⟨procedures, unwritten⟩ := enterProcedure_unwritten outside signature header
  have entered : Routes p.leave (s.leave "next procedure") [] [] (p.leave.enter .procedure)
      (s.enterProcedure signature header) := by
    rw [again]
    exact Routes.enters rfl ⟨scope, by simp [scope, opened], Nat.le_refl _⟩ author capture
      procedures lines unwritten
  have all := left.trans fits entered
  rwa [List.append_nil, List.append_nil] at all

theorem procedureStart (fits : Fits p s) (unsigned : s.Unsigned) (h : ProcedureHeader) :
    Routes p s [] (s.ended p) (p.enter h.scope) (s.procedureStart h) := by
  unfold Sketch.procedureStart ProcedureHeader.scope
  split
  · exact Routes.enterRoutine fits unsigned (by simp)
  split
  · exact Routes.enterRoutine fits unsigned (by simp)
  · have texts := Mute.chores unsigned (.parameterTexts s h.parameters)
    unfold openProcedure
    dsimp only
    generalize Cpp.called _ _ ++ ";" = signature
    generalize Cpp.called _ _ ++ " \x7b" = header
    have entered :=
      Routes.enterProcedure (fits.mute texts) (texts.unsigned unsigned) signature header
    have named (t : Sketch) :=
      (Mute.declare t h.name).trans (Mute.declares Parameter.name h.parameters _)
    have all := ((Routes.still fits texts).trans fits entered).trans fits
      (Routes.still entered.fits (named _))
    obtain ⟨symbols, eq, -⟩ := parameterTexts_frame s h.parameters
    have same : (s.parameterTexts h.parameters).2.2.ended p = s.ended p := by
      rw [eq]
      exact ended_note p s symbols s.blocks s.events
    simpa [same] using all

theorem captured (routes : Routes p { s with capture := some [] } ms done p' s') :
    Routes p s ms done p' { s' with capture := s.capture } where
  begun := routes.begun
  fits := ⟨routes.fits.scope, routes.fits.opened, routes.fits.number⟩
  author := routes.author
  capture := rfl
  mute _ := routes.mute rfl
  here := routes.here
  homes := routes.homes
  stands := routes.stands
  grows b plain := by
    have grows := routes.grows b plain
    cases b <;> exact grows
  plain b plain := by
    have code := routes.plain b plain
    cases b <;> exact code
  collected := routes.collected
  distinct := routes.distinct
  finished := routes.finished
  current := routes.current
  covered := routes.covered
  kept := routes.kept
  lasting m mem isStatement t stage := by
    obtain ⟨grows, survive⟩ := routes.lasting m mem isStatement t stage
    refine ⟨fun b plain => ?_, survive⟩
    have grown := grows b plain
    cases b <;> exact grown

theorem resumes (fits : Fits p s) (inner : Routes (p.enter .procedure) s' ms done p' s'')
    (outside : p'.home = .outside) (author : s'.author = s.author)
    (capture : s'.capture.isSome = s.capture.isSome) (procedures : s'.procedures = s.procedures)
    (lines : ∀ b, b ≠ .procedure → s'.buffer b = s.buffer b)
    (unwritten : s'.buffer .procedure = []) :
    Routes p s ms done { p with begun := p'.begun } (s''.resume s) := by
  have later : p.begun < p'.begun := inner.begun
  have away (n : Nat) : p'.home ≠ .procedure n := by
    simp [outside, Home.outside, Home.procedure]
  have fresh {home : Home} (opens : Opens (p.enter .procedure) p' home) :
      p.begun < home.number ∧ home.number ≤ p'.begun := by
    rcases opens with rfl | ⟨lt, le⟩
    · exact ⟨Nat.lt_succ_self _, later⟩
    · exact ⟨Nat.lt_of_succ_lt lt, le⟩
  have apart {home : Home} (opens : Opens (p.enter .procedure) p' home) : p.home ≠ home := by
    rintro rfl
    exact absurd fits.number (Nat.not_le.2 (fresh opens).1)
  have resumed (b : Scope) (plain : b ≠ .procedure) : (s''.resume s).buffer b = s''.buffer b :=
    @buffer_plain s'' (s''.resume s) rfl rfl rfl b plain
  have survives {n : Nat} {q : Procedure} (survives : Survives n q done p' s'') :
      ∃ q', (n, q') ∈ done ∧ q.Continues q' :=
    survives.resolve_left fun here => away n here.1
  exact
    { begun := Nat.le_of_lt later
      fits := ⟨fits.scope, fits.opened, Nat.le_trans fits.number (Nat.le_of_lt later)⟩
      author := inner.author.trans author
      capture := inner.capture.trans capture
      mute := fun capturing => inner.mute (capture.trans capturing)
      here := fun _ => Or.inl rfl
      homes := fun m mem inside => Or.inr (fresh (inner.homes m mem inside))
      stands := inner.stands
      grows := fun b plain => by
        rw [resumed b plain, ← lines b plain]
        exact inner.grows b plain
      plain := fun b plain => by rw [resumed b plain, ← lines b plain, inner.plain b plain]
      collected := inner.collected.trans (by rw [procedures])
      distinct := inner.distinct
      finished := fun d mem => by
        obtain ⟨opens, -, code⟩ := inner.finished d mem
        refine ⟨Or.inr (fresh opens), apart opens, ?_⟩
        rw [code, own, own, if_neg (apart opens), unwritten]
        simp [routed]
      current := fun n home => by
        have unwritten : codeOf (· == .procedure n) ms = [] :=
          codeOf_eq_nil fun m mem inside =>
            absurd home (apart (inner.homes_procedure m mem inside))
        rw [unwritten, List.append_nil]
        rfl
      covered := fun n opens => by
        rcases opens with here | ⟨m, mem, home⟩
        · exact Or.inl here
        · exact Or.inr ((inner.covered n (Or.inr ⟨m, mem, home⟩)).resolve_left (away n))
      kept := fun n q home opened => Or.inl ⟨home, q, opened, rfl, List.prefix_rfl⟩
      lasting := fun m mem isStatement t stage => by
        obtain ⟨grows, survive⟩ := inner.lasting m mem isStatement t stage
        refine ⟨fun b plain => ?_, fun n q home opened =>
          Or.inr (survives (survive n q home opened))⟩
        rw [resumed b plain]
        exact grows b plain }

theorem every (fits : Fits p s) (unsigned : s.Unsigned)
    (inner : Routes (p.enter .procedure) s.task ms done p' s') (interval : String) :
    Routes p s ms (done ++ (s'.start s.line).ended p') { p with begun := p'.begun }
      ((((s'.start s.line).endProcedure.leave "end of Every block").resume s.announce).poll
        (s.everyCount + 1) interval) := by
  have announced : Mute s s.announce := Mute.chores unsigned ((Chores.note s s.symbols s.includes
    s.sprites s.blocks (s.everyCount + 1) s.events).trans (.emitGlobal _ _))
  obtain ⟨scope, opened, author, capture, procedures, lines, unwritten⟩ := task_frame s
  have inside : Fits (p.enter .procedure) s.task := ⟨scope, by simp [scope, opened], Nat.le_refl _⟩
  have started : Mute s' (s'.start s.line) := .of_eq rfl rfl rfl rfl rfl fun b => by cases b <;> rfl
  have unsigned' : (s'.start s.line).Unsigned := by
    refine started.unsigned ?_
    rw [Unsigned, inner.author, inner.capture, author, capture]
    exact announced.unsigned unsigned
  have ended := Routes.endProcedure (inner.fits.mute started) unsigned'
  have whole := (inner.trans inside (Routes.still inner.fits started)).trans inside ended
  simp only [List.append_nil] at whole
  have resumed := Routes.resumes (fits.mute announced) whole rfl author capture procedures lines
    unwritten
  rw [leave_of_global (scope_endProcedure _)]
  generalize (s'.start s.line).endProcedure.resume s.announce = t at resumed
  have unsigned'' : t.Unsigned := by
    rw [Unsigned, resumed.author, resumed.capture]
    exact announced.unsigned unsigned
  have polled : Mute t (t.poll (s.everyCount + 1) interval) :=
    Mute.chores unsigned'' ((((Chores.emitLoop _ 0 _).trans (.emitLoop _ 1 _)).trans
      (.emitLoop _ 1 _)).trans (.emitLoop _ 0 _))
  have all := ((Routes.still fits announced).trans fits resumed).trans fits
    (Routes.still resumed.fits polled)
  simp only [List.append_nil, List.nil_append] at all
  exact all

theorem statement {st : Statement}
    (routes : Routes p (s.facing st) ms done p' ((s.facing st).place st)) :
    Routes p s ms done p' (s.statements [st]) where
  begun := routes.begun
  fits := ⟨routes.fits.scope, routes.fits.opened, routes.fits.number⟩
  author := rfl
  capture := routes.capture
  mute := routes.mute
  here := routes.here
  homes := routes.homes
  stands := routes.stands
  grows b plain := by
    have grows := routes.grows b plain
    cases b <;> exact grows
  plain b plain := by
    have code := routes.plain b plain
    cases b <;> exact code
  collected := routes.collected
  distinct := routes.distinct
  finished := routes.finished
  current := routes.current
  covered := routes.covered
  kept := routes.kept
  lasting m mem isStatement t stage := by
    obtain ⟨grows, survive⟩ := routes.lasting m mem isStatement t stage
    refine ⟨fun b plain => ?_, survive⟩
    have grown := grows b plain
    cases b <;> exact grown

end Routes

theorem lines_routed (st : Statement) (routed_ : st.isRouted = true) (fits : Fits p s)
    (signed : s.capture.isSome = true ∨ s.author = some st) :
    let m : Moment := ⟨p.home, s, .statement st⟩
    routed m.lines = m.lines ∧ (s.capture.isSome = true → m.lines = []) ∧
      ∀ b, (s.place st).buffer b = s.buffer b ++ if b = p.home.scope then m.lines else [] := by
  intro m
  obtain ⟨new, eq, captured, own⟩ := (place_appends st routed_ s).lines
  rw [fits.landing] at eq
  have lines : m.lines = new := by
    simp only [m, Moment.lines, routed_, if_true, eq, List.drop_left]
  rw [lines]
  refine ⟨List.filter_eq_self.2 fun l mem => ?_, captured, eq⟩
  rcases signed with capturing | author
  · simp [captured capturing] at mem
  · simp [isRouted, own l mem, author, routed_]

theorem moves_statement : (st : Statement) → st.staysInBody = true → (p : Position) → st.moves p = p
  | .plain _ a, stays, p => by
    cases a <;> first | rfl | simp [Statement.staysInBody] at stays
  | .inlineIf _ _ thenBranch, stays, p => moves_statement thenBranch stays p
  | .inlineIfElse _ _ thenBranch elseBranch, stays, p => by
    obtain ⟨first, second⟩ := Bool.and_eq_true_iff.1 stays
    rw [Statement.moves, moves_statement thenBranch first, moves_statement elseBranch second]

variable {home : Home}

theorem home_declarationMoments {isStatic : Bool} {ds : List Declaration} :
    ∀ {s : Sketch}, ∀ m ∈ declarationMoments home isStatic s ds,
      m.home = home ∧ m.isStatement = false := by
  induction ds with
  | nil => simp [declarationMoments]
  | cons d rest ih =>
    intro s
    exact List.forall_mem_cons.2 ⟨⟨rfl, rfl⟩, ih⟩

theorem home_parameterMoments {inside : Home} {ps : List Parameter} :
    ∀ {s : Sketch}, ∀ m ∈ parameterMoments home inside s ps,
      m.home = home ∧ m.isStatement = false := by
  induction ps with
  | nil => simp [parameterMoments]
  | cons p rest ih =>
    intro s
    exact List.forall_mem_cons.2 ⟨⟨rfl, rfl⟩, List.forall_mem_cons.2 ⟨⟨rfl, rfl⟩, ih⟩⟩

theorem home_actionMoments {a : Action} :
    ∀ m ∈ s.actionMoments p a, m.home = p.home ∧ m.isStatement = false := by
  cases a with
  | dim ds => exact home_declarationMoments
  | static ds => exact home_declarationMoments
  | procedureStart h =>
    rw [actionMoments]
    split
    · exact home_parameterMoments
    · simp
  | _ => simp [actionMoments]

namespace Routes

variable {p : Position} {s : Sketch}

theorem unsigned_of (st : Statement) (other : st.isRouted = false)
    (signed : s.capture.isSome = true ∨ s.author = some st) : s.Unsigned :=
  signed.imp_right fun author => by simp [author, other]

variable {done : List (Nat × Procedure)} {ms : List Moment}

theorem keptAll {p' : Position} {s' : Sketch} (routes : Routes p s ms done p' s') :
    ∀ m ∈ ms, m.isStatement = true →
    (∀ b, b ≠ .procedure → m.sketch.buffer b <+: s'.buffer b) ∧
      ∀ n q, m.home = .procedure n → m.sketch.open? = some q → Survives n q done p' s' :=
  fun m mem isStatement => routes.lasting m mem isStatement m.sketch List.mem_cons_self

theorem lasts_after {st : Statement} {ms : List Moment} {done : List (Nat × Procedure)}
    (routes : Routes p s ms done (st.moves p) (s.place st)) :
    Lasts p.home (Moment.after ⟨p.home, s, .statement st⟩) done (st.moves p) (s.place st) := by
  dsimp only [Moment.after]
  split
  · rename_i stays
    rw [moves_statement st stays]
    exact Lasts.refl p _ done
  · exact ⟨routes.grows, routes.kept⟩

theorem perform (fits : Fits p s) {n : Nat} {a : Action}
    (signed : s.capture.isSome = true ∨ s.author = some (.plain n a)) :
    Routes p s (s.moments p (.plain n a)) (s.finishes p (.plain n a)) (a.moves p)
      (s.perform a) := by
  have heard {done : List (Nat × Procedure)} {p' : Position} {s' : Sketch}
      (routes : Routes p s [] done p' s') : Routes p s (s.actionMoments p a) done p' s' := by
    have all : Routes p s (s.actionMoments p a ++ []) done p' s' :=
      routes.hearAll fits home_actionMoments
    rwa [List.append_nil] at all
  rw [moments]
  cases routed_ : a.isRouted with
  | true =>
    obtain ⟨own, captured, lines⟩ := lines_routed (.plain n a) routed_ fits signed
    have stays := Statement.staysInBody_of_isRouted (.plain n a) routed_
    rw [show a.moves p = p from moves_statement (.plain n a) stays p]
    have none_done : s.finishes p (.plain n a) = [] := by
      cases a <;> first | rfl | simp [Statement.staysInBody] at stays
    rw [none_done]
    refine (heard (Routes.refl fits)).speak fits rfl rfl (fun m mem => ?_) (fun _ => rfl)
      (Appends.perform s routed_) (if_pos stays) own captured lines
    refine Moment.lines_unrouted fun st deed => ?_
    have other := (home_actionMoments m mem).2
    simp [Moment.isStatement, deed] at other
  | false =>
    have unsigned := unsigned_of (.plain n a) routed_ signed
    have routes : Routes p s [] (s.finishes p (.plain n a)) (a.moves p) (s.perform a) := by
      have written (plain : a.isPlain = true) : Mute s (s.perform a) :=
        Mute.does unsigned (.plain s plain)
      cases a with
      | procedureStart h => exact Routes.procedureStart fits unsigned h
      | procedureEnd _ => exact Routes.endProcedure fits unsigned
      | const | arrayLiteral | sprite => exact Routes.still fits (written rfl)
      | _ => simp [Action.isRouted] at routed_
    refine (heard routes).hear fits rfl
      (fun _ => ⟨rfl, @lasts_after p s (.plain n a) _ _ routes⟩) (Moment.lines_unrouted ?_)
    rintro st ⟨⟩
    exact routed_

theorem inline (fits : Fits p s) (st : Statement)
    (signed : s.capture.isSome = true ∨ s.author = some st) {t : Sketch}
    (branches : Routes p s ms done (st.moves p) t) (others : ∀ m ∈ ms, m.lines = [])
    (same : st.isRouted = true → ∀ b, t.buffer b = s.buffer b) {text : String}
    (placed : s.place st = t.emit text) :
    Routes p s (⟨p.home, s, .statement st⟩ :: ms) done (st.moves p) (s.place st) := by
  cases routed_ : st.isRouted with
  | true =>
    obtain ⟨own, captured, lines⟩ := lines_routed st routed_ fits signed
    have stays := Statement.staysInBody_of_isRouted st routed_
    rw [moves_statement st stays] at branches ⊢
    -- nothing is finished where nothing moves
    have none_done := branches.none_done
    subst none_done
    refine branches.speak fits rfl rfl others (same routed_) ?_ (if_pos stays) own captured lines
    rw [placed]
    exact Appends.emit t text
  | false =>
    have unsigned : t.Unsigned := by
      rw [Unsigned, branches.author, branches.capture]
      exact unsigned_of st routed_ signed
    have written : Mute t (s.place st) := placed ▸ Mute.push unsigned true t.scope t.depth text
    have all := branches.trans fits (Routes.still branches.fits written)
    rw [List.append_nil, List.append_nil] at all
    refine all.hear fits rfl (fun _ => ⟨rfl, lasts_after all⟩) (Moment.lines_unrouted ?_)
    rintro st' ⟨⟩
    exact routed_

end Routes

mutual

theorem place_finishes : (st : Statement) → (p : Position) → (s : Sketch) → Fits p s →
    s.capture.isSome = true ∨ s.author = some st →
    Routes p s (s.moments p st) (s.finishes p st) (st.moves p) (s.place st)
  | .plain n a, p, s, fits, signed => Routes.perform fits signed
  | .inlineIf n c thenBranch, p, s, fits, signed => by
    have inside := place_finishes thenBranch p { s with capture := some [] }
      ⟨fits.scope, fits.opened, fits.number⟩ (Or.inl rfl)
    rw [moments, finishes]
    exact Routes.inline fits (.inlineIf n c thenBranch) signed inside.captured (inside.mute rfl)
      (fun routed_ => Appends.buffer_captured s (place_appends thenBranch routed_)) rfl
  | .inlineIfElse n c thenBranch elseBranch, p, s, fits, signed => by
    have first := place_finishes thenBranch p { s with capture := some [] }
      ⟨fits.scope, fits.opened, fits.number⟩ (Or.inl rfl)
    have second := place_finishes elseBranch (thenBranch.moves p)
      { (s.captured fun s => s.place thenBranch).2 with capture := some [] }
      ⟨first.fits.scope, first.fits.opened, first.fits.number⟩ (Or.inl rfl)
    have branches := first.captured.trans fits second.captured
    rw [moments, finishes]
    refine Routes.inline fits (.inlineIfElse n c thenBranch elseBranch) signed branches ?_ ?_ rfl
    · exact List.forall_mem_append.2 ⟨first.mute rfl, second.mute rfl⟩
    · intro routed_ b
      obtain ⟨routed₁, routed₂⟩ : thenBranch.isRouted = true ∧ elseBranch.isRouted = true := by
        simpa [Statement.isRouted] using routed_
      exact (Appends.buffer_captured _ (place_appends elseBranch routed₂) b).trans
        (Appends.buffer_captured s (place_appends thenBranch routed₁) b)
  | .every n interval body, p, s, fits, signed => by
    obtain ⟨scope, opened, -⟩ := task_frame s
    have inner := statements_finishes body (p.enter .procedure) s.task
      ⟨scope, by simp [scope, opened], Nat.le_refl _⟩
    have routes := Routes.every fits
      (Routes.unsigned_of (.every n interval body) rfl signed) inner (s.value interval)
    rw [moments, finishes, place, emitEvery_eq]
    refine routes.hear fits rfl
      (fun _ => ⟨rfl, @Routes.lasts_after p s (.every n interval body) _ _ routes⟩)
      (Moment.lines_unrouted ?_)
    rintro st ⟨⟩
    rfl

theorem statements_finishes : (sts : List Statement) → (p : Position) → (s : Sketch) → Fits p s →
    Routes p s (s.allMoments p sts) (s.allFinishes p sts) (Statement.movesAll p sts)
      (s.statements sts)
  | [], p, s, fits => Routes.refl fits
  | first :: rest, p, s, fits => by
    have here := (place_finishes first p (s.facing first)
      ⟨fits.scope, fits.opened, fits.number⟩ (Or.inr rfl)).statement
    rw [statements_cons]
    exact here.trans fits
      (statements_finishes rest (first.moves p) (s.statements [first]) here.fits)

end

theorem finish_finishes (fits : Fits p s) (unsigned : s.Unsigned) :
    Routes p s [] (s.ended p) p.leave s.finish := by
  have left := Routes.leave fits unsigned "end of input"
  have unsigned' : (s.leave "end of input").Unsigned := by
    rw [Unsigned, left.author, left.capture]
    exact unsigned
  have dropped := Mute.chores unsigned' (.dropBlocks _ "end of input")
  have all := left.trans fits (Routes.still left.fits dropped)
  rwa [List.append_nil, List.append_nil] at all

theorem ofStatements_finished (options : Options) (sts : List Statement) :
    Routes .start (empty options) (momentsOf options sts) (finished options sts)
      (Statement.movesAll .start sts).leave (ofStatements options sts) := by
  have fits : Fits .start (empty options) := ⟨rfl, by simp [empty], Nat.le_refl _⟩
  have run := statements_finishes sts .start (empty options) fits
  have unsigned : ((empty options).statements sts).Unsigned := by
    refine Or.inr ?_
    rw [run.author]
    rfl
  have all := run.trans fits (finish_finishes run.fits unsigned)
  rwa [List.append_nil] at all

theorem covered_finished {options : Options} {sts : List Statement} :
    ∀ m ∈ momentsOf options sts, m.home.scope = .procedure →
      m.home.number ∈ (finished options sts).map Prod.fst := by
  intro m mem inside
  refine ((ofStatements_finished options sts).covered m.home.number
    (Or.inr ⟨m, mem, Home.eq_procedure inside⟩)).resolve_left fun here => ?_
  exact Home.procedure_ne_outside _ here.symm

theorem collected_finished {options : Options} {sts : List Statement} :
    (ofStatements options sts).procedures =
      Procedure.latest ((finished options sts).map Prod.snd) :=
  (ofStatements_finished options sts).collected.trans (Procedure.foldl_collect _ [])

theorem Move.grows {d d' : Desk} (move : Move d d') (b : Scope) (plain : b ≠ .procedure) :
    d.sketch.buffer b <+: d'.sketch.buffer b := by
  have same {s s' : Sketch} (globals : s'.globals = s.globals) (setup : s'.setup = s.setup)
      (loop : s'.loop = s.loop) : s.buffer b <+: s'.buffer b :=
    (buffer_plain globals setup loop b plain).symm ▸ List.prefix_rfl
  cases move with
  | push s k inPlace scope depth text _ =>
    cases capturing : s.capture with
    | some texts =>
      have kept := buffer_push_captured s inPlace scope depth text (by simp [capturing]) b
      exact kept.symm ▸ List.prefix_rfl
    | none =>
      rw [buffer_push _ _ _ _ _ capturing]
      exact List.prefix_append _ _
  | note k noted => exact noted.buffer b ▸ List.prefix_rfl
  | ends s k _ =>
    cases opened : s.open? with
    | none =>
      have unchanged : s.finishProcedure = s := by rw [finishProcedure, opened]
      exact same (by rw [unchanged]) (by rw [unchanged]) (by rw [unchanged])
    | some q =>
      obtain ⟨signatures, events, eq⟩ := finishProcedure_frame opened
      rw [eq]
      exact same rfl rfl rfl
  | _ => exact same rfl rfl rfl

theorem place_grows (s : Sketch) (st : Statement) (b : Scope) (plain : b ≠ .procedure) :
    s.buffer b <+: (s.place st).buffer b := by
  have run {d d' : Desk} (moves : Moves d d') : d.sketch.buffer b <+: d'.sketch.buffer b := by
    induction moves with
    | refl => exact List.prefix_rfl
    | tail _ move ih => exact ih.trans (move.grows b plain)
  exact run (place_moves s [] st)

end Sketch

open Sketch

/-- Each body has the code of its statements in the order of the source, and keeps what it has. -/
theorem routing_faithful (options : Options) (sts : List Statement) :
    let ms := momentsOf options sts
    let sketch := Sketch.ofStatements options sts
    ms.filterMap Moment.statement? = Statement.allParts sts ∧
    (∀ m ∈ ms, ∀ st, m.deed = .statement st →
      let after := m.sketch.place st
      (st.isRouted = true →
        (∃ new, (∀ b, after.buffer b = m.sketch.buffer b ++ if b = m.home.scope then new else []) ∧
          (m.sketch.capture.isSome = true → new = []) ∧
          ∀ l ∈ new, l.origin = ⟨m.sketch.author, true⟩) ∧
        after.procedures = m.sketch.procedures ∧ after.signatures = m.sketch.signatures ∧
        after.open?.map Procedure.title = m.sketch.open?.map Procedure.title) ∧
      ∀ b, b ≠ .procedure → m.sketch.buffer b <+: after.buffer b) ∧
    (∀ b, b ≠ .procedure → routed (sketch.buffer b) = codeOf (·.scope == b) ms) ∧
    ∃ done : List (Nat × Procedure),
      (done.map Prod.fst).Nodup ∧
      (∀ m ∈ ms, m.home.scope = .procedure → m.home.number ∈ done.map Prod.fst) ∧
      (∀ d ∈ done, routed d.2.body = codeOf (· == .procedure d.1) ms) ∧
      (∀ m ∈ ms, m.isStatement = true →
        (∀ b, b ≠ .procedure → m.sketch.buffer b <+: sketch.buffer b) ∧
          ∀ q, m.sketch.open? = some q → ∃ q', (m.home.number, q') ∈ done ∧ q.Continues q') ∧
      sketch.procedures = Procedure.latest (done.map Prod.snd) ∧
      ∃ front opening, sketch.unitLines = front ++ sketch.globals.map SketchLine.render ++ [""] ++
        sketch.procedures.flatMap (fun q => (q.header ++ q.hoisted.map Procedure.hoistedLine ++
          q.body).map SketchLine.render ++ [""]) ++
        opening ++ sketch.setup.map SketchLine.render ++ ["\x7d", "", "void loop() \x7b"] ++
        sketch.loop.map SketchLine.render ++ ["\x7d"] := by
  intro ms sketch
  have routes := ofStatements_finished options sts
  refine ⟨statement?_allMoments sts _ _,
    fun m mem st deed => ⟨fun routed_ => ?_, fun b plain => ?_⟩, fun b plain => ?_, _,
    routes.distinct, covered_finished, fun d mem => ?_, fun m mem isStatement => ?_,
    collected_finished, ?_⟩
  · have isStatement : m.isStatement = true := by simp [Moment.isStatement, deed]
    obtain ⟨scope, opened⟩ := routes.stands m mem isStatement
    have appends := place_appends st routed_ m.sketch
    have lands : m.sketch.landing m.sketch.scope = m.home.scope := by
      rw [← scope]
      cases inside : m.sketch.scope with
      | procedure => rw [Sketch.landing, if_pos (opened.1 inside)]
      | _ => rfl
    rw [← lands]
    exact ⟨appends.lines, appends.procedures, appends.signatures, appends.title⟩
  · exact place_grows m.sketch st b plain
  · have code := routes.plain b plain
    rw [code]
    cases b <;> rfl
  · obtain ⟨-, -, code⟩ := routes.finished d mem
    rw [code, own, if_neg]
    · rfl
    · simp [Position.start, Home.outside, Home.procedure]
  · obtain ⟨grows, survive⟩ := routes.keptAll m mem isStatement
    refine ⟨grows, fun q opened => ?_⟩
    obtain ⟨scope, isOpen⟩ := routes.stands m mem isStatement
    have inside : m.home.scope = .procedure := scope ▸ isOpen.2 (by simp [opened])
    exact (survive _ q (Home.eq_procedure inside) opened).resolve_left fun here =>
      Home.procedure_ne_outside _ here.1.symm
  · refine ⟨sketch.includeLines ++ [""] ++
      (if sketch.signatures.isEmpty then [] else sketch.signatures ++ [""]) ++
      (if sketch.usesHelpers then helperLines ++ [""] else []) ++
      (if sketch.symbols.usesTft then ["TFT_eSPI tft;"] else []),
      ["void setup() \x7b", s!"    delay({sketch.options.startupDelay});"] ++
        (if sketch.symbols.usesTft then ["    tft.begin();"] else []), ?_⟩
    simp only [unitLines, globalLines, setupLines, loopLines, Procedure.lines, List.append_assoc,
      List.cons_append, List.nil_append]

end BasicSketch
