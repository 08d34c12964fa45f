import BasicSketch.Proofs.Performing

set_option autoImplicit false

/-! What is written in place. -/

namespace BasicSketch

namespace SketchLine

def depth : SketchLine → Nat
  | .marker _ depth _ | .code _ depth _ => depth

def inPlace (line : SketchLine) : Bool := line.origin.inPlace

end SketchLine

namespace Sketch

structure Grows (own : List SketchLine) (s s' : Sketch) : Prop where
  scope : s'.scope = s.scope
  opened : s'.open?.isSome = s.open?.isSome
  author : s'.author = s.author
  capture : s'.capture.isSome = s.capture.isSome
  quiet : Quiet s s'
  buffers : ∀ b, ∃ new, s'.buffer b = s.buffer b ++ new ∧
    new.filter SketchLine.inPlace =
      if s.capture.isSome = false ∧ b = s.landing s.scope then own else []

namespace Grows

variable {s s' s'' : Sketch} {own own' : List SketchLine}

theorem landing (grows : Grows own s s') : s'.landing s'.scope = s.landing s.scope := by
  rw [grows.scope]
  cases s.scope <;> simp [Sketch.landing, grows.opened]

theorem trans (first : Grows own s s') (second : Grows own' s' s'') :
    Grows (own ++ own') s s'' where
  scope := second.scope.trans first.scope
  opened := second.opened.trans first.opened
  author := second.author.trans first.author
  capture := second.capture.trans first.capture
  quiet := first.quiet.trans second.quiet
  buffers b := by
    obtain ⟨new, eq, kept⟩ := first.buffers b
    obtain ⟨new', eq', kept'⟩ := second.buffers b
    refine ⟨new ++ new', by rw [eq', eq, List.append_assoc], ?_⟩
    rw [List.filter_append, kept, kept', first.capture, first.landing]
    split <;> simp

theorem of_eq (buffers : ∀ b, s'.buffer b = s.buffer b) (scope : s'.scope = s.scope)
    (opened : s'.open?.isSome = s.open?.isSome) (author : s'.author = s.author)
    (capture : s'.capture.isSome = s.capture.isSome) (quiet : Quiet s s') : Grows [] s s' where
  scope := scope
  opened := opened
  author := author
  capture := capture
  quiet := quiet
  buffers b := ⟨[], by simp [buffers b], by simp⟩

theorem refl (s : Sketch) : Grows [] s s :=
  of_eq (fun _ => rfl) rfl rfl rfl rfl (Quiet.of_eq rfl)

theorem noted (noted : Noted s s') : Grows [] s s' := by
  have opened := congrArg Option.isSome noted.heading
  simp only [Option.isSome_map] at opened
  exact of_eq noted.buffer noted.scope opened noted.author (by rw [noted.capture]) noted.quiet

theorem blocks (s : Sketch) (blocks : List Block) : Grows [] s { s with blocks } :=
  of_eq (fun b => by cases b <;> rfl) rfl rfl rfl rfl (Quiet.of_eq rfl)

theorem openBlock (s : Sketch) (block : Block) : Grows [] s (s.openBlock block) :=
  blocks s (block :: s.blocks)

theorem pushed_inPlace (s : Sketch) (inPlace : Bool) (scope : Scope) (depth : Nat)
    (text : String) : ∀ l ∈ s.pushed inPlace scope depth text, l.inPlace = inPlace := by
  intro l mem
  unfold pushed at mem
  split at mem
  · rw [List.mem_singleton.1 mem]
    rfl
  · simp only [List.mem_cons, List.not_mem_nil, or_false] at mem
    rcases mem with rfl | rfl <;> rfl

theorem push (s : Sketch) (inPlace : Bool) (scope : Scope) (depth : Nat) (text : String)
    (own : List SketchLine)
    (kept : ∀ b, s.capture.isSome = false →
      (if b = s.landing scope then s.pushed inPlace scope depth text else []).filter
        SketchLine.inPlace = if b = s.landing s.scope then own else []) :
    Grows own s (s.push inPlace scope depth text) where
  scope := by simp
  opened := by simp
  author := by simp
  capture := by simp
  quiet := Quiet.of_eq (by simp)
  buffers b := by
    cases capturing : s.capture with
    | some texts =>
      refine ⟨[], ?_, by simp⟩
      rw [buffer_push_captured _ _ _ _ _ (by simp [capturing]), List.append_nil]
    | none =>
      refine ⟨_, buffer_push _ _ _ _ _ capturing b, ?_⟩
      simpa using kept b (by simp [capturing])

theorem inPlace (s : Sketch) (depth : Nat) (text : String) :
    Grows (s.pushed true s.scope depth text) s (s.push true s.scope depth text) := by
  refine push s true s.scope depth text _ fun b _ => ?_
  split
  · exact List.filter_eq_self.2 (pushed_inPlace s true s.scope depth text)
  · rfl

theorem elsewhere (s : Sketch) (scope : Scope) (depth : Nat) (text : String) :
    Grows [] s (s.push false scope depth text) := by
  refine push s false scope depth text _ fun b _ => ?_
  have none_own : (s.pushed false scope depth text).filter SketchLine.inPlace = [] := by
    refine List.filter_eq_nil_iff.2 fun l mem => ?_
    simp [pushed_inPlace s false scope depth text l mem]
  split <;> simp [none_own]

end Grows

def Level (s : Sketch) (own : List SketchLine) : Prop :=
  ∀ l ∈ own, l.origin.author = s.author ∧ l.depth = s.depth

variable {s s' : Sketch} {body : Sketch → Sketch}

theorem depth_eq (blocks : s'.blocks = s.blocks) (scope : s'.scope = s.scope) :
    s'.depth = s.depth := by
  simp [depth, blocks, scope]

theorem origin_pushed {inPlace : Bool} {scope : Scope} {depth : Nat} {text : String} :
    ∀ l ∈ s.pushed inPlace scope depth text, l.origin.author = s.author ∧ l.depth = depth := by
  intro l mem
  unfold pushed at mem
  split at mem
  · rw [List.mem_singleton.1 mem]
    exact ⟨rfl, rfl⟩
  · simp only [List.mem_cons, List.not_mem_nil, or_false] at mem
    rcases mem with rfl | rfl <;> exact ⟨rfl, rfl⟩

theorem Does.grows {a : Action} {keeps : Bool} (does : Does a keeps s s')
    (plain : a.isPlain = true) :
    ∃ own, Grows own s s' ∧ s'.blocks = s.blocks ∧ s.Level own := by
  induction does with
  | line s _ _ level =>
    rw [level plain]
    exact ⟨_, Grows.inPlace s s.depth _, by simp, origin_pushed⟩
  | elsewhere s => exact ⟨[], Grows.elsewhere s _ _ _, by simp, by simp [Level]⟩
  | note s _ _ quiet =>
    exact ⟨[], Grows.noted (Noted.of_names s quiet), rfl, by simp [Level]⟩
  | hoist s opened => exact ⟨[], Grows.noted (Noted.hoist s opened), rfl, by simp [Level]⟩
  | turn s _ _ busy => simp [busy] at plain
  | trans _ _ first second =>
    obtain ⟨own, grows, blocks, level⟩ := first
    obtain ⟨own', grows', blocks', level'⟩ := second
    refine ⟨own ++ own', grows.trans grows', blocks'.trans blocks, fun l mem => ?_⟩
    rcases List.mem_append.1 mem with here | there
    · exact level l here
    · rw [← grows.author, ← depth_eq blocks grows.scope]
      exact level' l there

def Stays (write : Sketch → Sketch) : Prop :=
  ∀ s, ∃ own, Grows own s (write s) ∧ (write s).blocks = s.blocks

section Holding

variable {write : Sketch → Sketch}

theorem Stays.captured (stays : Stays write) (s : Sketch) :
    Grows [] s (s.captured write).2 ∧ (s.captured write).2.blocks = s.blocks := by
  obtain ⟨own, grows, blocks⟩ := stays { s with capture := some [] }
  refine ⟨⟨grows.scope, grows.opened, grows.author, rfl, grows.quiet, fun b => ?_⟩, blocks⟩
  obtain ⟨new, eq, kept⟩ := grows.buffers b
  have before : { s with capture := some [] }.buffer b = s.buffer b := by cases b <;> rfl
  have after : (s.captured write).2.buffer b = (write { s with capture := some [] }).buffer b := by
    cases b <;> rfl
  exact ⟨new, by rw [after, eq, before], by simpa using kept⟩

theorem Stays.emits (stays : Stays write) (s : Sketch) (text : String) :
    ∃ own, Grows own s ((s.captured write).2.emit text) ∧
      ((s.captured write).2.emit text).blocks = s.blocks ∧ s.Level own := by
  obtain ⟨grows, blocks⟩ := stays.captured s
  have written := grows.trans (Grows.inPlace (s.captured write).2 (s.captured write).2.depth text)
  refine ⟨_, written, by simpa [Sketch.emit] using blocks, fun l mem => ?_⟩
  rw [← grows.author, ← depth_eq blocks grows.scope]
  exact origin_pushed l (by simpa using mem)

end Holding

theorem buffer_push_procedure {s : Sketch} (opened : s.open?.isSome = true) (text : String)
    {b : Scope} (other : b ≠ .procedure) :
    (s.push false .procedure 0 text).buffer b = s.buffer b := by
  have landing : s.landing .procedure = .procedure := by simp [Sketch.landing, opened]
  cases capturing : s.capture with
  | some texts => exact buffer_push_captured _ _ _ _ _ (by simp [capturing]) b
  | none => rw [buffer_push _ _ _ _ _ capturing, landing, if_neg other, List.append_nil]

theorem enterProcedure_outside {s : Sketch} (outside : s.scope = .global)
    (signature header : String) :
    let s' := s.enterProcedure signature header
    s'.scope = .procedure ∧ s'.open?.isSome = true ∧ s'.blocks = s.blocks ∧
      s'.author = s.author ∧ s'.capture.isSome = s.capture.isSome ∧ s'.events = s.events ∧
      ∀ b, b ≠ .procedure → s'.buffer b = s.buffer b := by
  intro s'
  simp only [s', enterProcedure, leave_of_global outside]
  refine ⟨by simp, by simp, by simp, by simp, by simp, by simp, fun b other => ?_⟩
  have pushed := @buffer_push_procedure { s with
    scope := .procedure
    localNames := []
    open? := some ⟨signature, [], [], []⟩ } rfl header b other
  cases b with
  | procedure => exact absurd rfl other
  | global | setup | loop => exact pushed

theorem endProcedure_inside {s : Sketch} (inside : s.scope = .procedure)
    (opened : s.open?.isSome = true) (blocks : s.blocks = []) :
    s.endProcedure.scope = .global ∧ s.endProcedure.author = s.author ∧
      s.endProcedure.capture.isSome = s.capture.isSome ∧ Quiet s s.endProcedure ∧
      ∀ b, b ≠ .procedure → s.endProcedure.buffer b = s.buffer b := by
  have dropped : s.dropBlocks "End" = s := by simp [dropBlocks, blocks]
  have still : (s.push false .procedure 0 "\x7d").open?.isSome = true := by simpa using opened
  obtain ⟨p, open_⟩ := Option.isSome_iff_exists.1 still
  obtain ⟨procedures, signatures, events, eq, -, -, quiet⟩ :=
    addProcedure_frame { s.push false .procedure 0 "\x7d" with open? := none } p
  unfold endProcedure
  simp only [inside, dropped, finishProcedure, open_, eq]
  refine ⟨trivial, by simp, by simp, ?_, fun b other => ?_⟩
  · obtain ⟨new, same, fine⟩ := quiet
    exact ⟨new, by simpa using same, fine⟩
  · have pushed := buffer_push_procedure opened "\x7d" other
    cases b with
    | procedure => exact absurd rfl other
    | global | setup | loop => exact pushed

theorem Stays.aside (stays : Stays body) (s : Sketch) (signature header : String) (opened : Nat) :
    let s' := s.aside fun t =>
      ((body (t.enterProcedure signature header)).start opened).endProcedure
    Grows [] s s' ∧ s'.blocks = s.blocks := by
  intro s'
  obtain ⟨scope, isOpen, blocks, author, capture, events, buffers⟩ := @enterProcedure_outside
    { s with scope := .global, blocks := [], open? := none, localNames := [] } rfl signature header
  generalize eq : Sketch.enterProcedure
    { s with scope := .global, blocks := [], open? := none, localNames := [] } signature header = t
    at scope isOpen blocks author capture events buffers
  obtain ⟨own, grows, same⟩ := stays t
  obtain ⟨scope', author', capture', quiet, buffers'⟩ := @endProcedure_inside
    ((body t).start opened) (grows.scope.trans scope) (grows.opened.trans isOpen)
    (same.trans blocks)
  have resumed : s' = { ((body t).start opened).endProcedure with
      scope := s.scope, blocks := s.blocks, open? := s.open?, localNames := s.localNames } := by
    simp only [s', Sketch.aside, eq]
    rw [leave_of_global scope']
  rw [resumed]
  refine ⟨⟨rfl, rfl, author'.trans (grows.author.trans author),
    capture'.trans (grows.capture.trans capture), ?_, fun b => ?_⟩, rfl⟩
  · obtain ⟨new, added, fine⟩ := grows.quiet.trans (Quiet.trans (Quiet.of_eq rfl) quiet)
    exact ⟨new, by rw [← events]; exact added, fine⟩
  · by_cases inTask : b = .procedure
    · subst inTask
      exact ⟨[], by simp [buffer], by simp⟩
    · obtain ⟨new, added, kept⟩ := grows.buffers b
      have landing : t.landing t.scope = .procedure := by
        rw [scope]
        simp [Sketch.landing, isOpen]
      refine ⟨new, ?_, by rw [kept, landing]; simp [inTask]⟩
      have ended := buffers' b inTask
      have entered := buffers b inTask
      cases b with
      | procedure => exact absurd rfl inTask
      | global | setup | loop => exact ended.trans (added.trans (congrArg (· ++ new) entered))

theorem Stays.emitEvery (stays : Stays body) (s : Sketch) (interval : Expr) :
    Grows [] s (s.emitEvery interval body) ∧ (s.emitEvery interval body).blocks = s.blocks := by
  have counted : Grows [] s { s with everyCount := s.everyCount + 1 } :=
    .of_eq (fun b => by cases b <;> rfl) rfl rfl rfl rfl (Quiet.of_eq rfl)
  unfold Sketch.emitEvery
  dsimp only
  generalize s!"_every_task_{s.everyCount + 1}" = task
  generalize s!"_every_last_{s.everyCount + 1}" = last
  have declared := counted.trans (Grows.elsewhere _ .global 0 s!"unsigned long {last} = 0;")
  obtain ⟨grows, blocks⟩ := stays.aside
    ({ s with everyCount := s.everyCount + 1 }.emitGlobal s!"unsigned long {last} = 0;")
    s!"void {task}();" s!"void {task}() \x7b" s.line
  have loops (t : Sketch) (a b c d : String) :
      Grows [] t ((((t.emitLoop 0 a).emitLoop 1 b).emitLoop 1 c).emitLoop 0 d) :=
    (((Grows.elsewhere t .loop 1 a).trans (.elsewhere _ .loop 2 b)).trans
      (.elsewhere _ .loop 2 c)).trans (.elsewhere _ .loop 1 d)
  refine ⟨(declared.trans grows).trans (loops _ _ _ _ _), ?_⟩
  simp only [emitLoop, push_rest]
  exact blocks.trans (by simp [emitGlobal])

end Sketch

end BasicSketch
