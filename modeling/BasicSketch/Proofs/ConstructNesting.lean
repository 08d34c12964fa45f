import BasicSketch.Proofs.CalmWriting
import BasicSketch.Proofs.ScopeRouting

set_option autoImplicit false

/-! The blocks of a body and the constructs of its code. -/

namespace BasicSketch

open SketchLine

namespace Moment

def role (m : Moment) : Role := (m.statement?.map Statement.role).getD .inside

/-- The blocks of a body behind a moment, innermost first; each is known by the moment that opened
it. -/
def turn (home : Home) (around : List Moment) (m : Moment) : List Moment :=
  if m.home = home then
    match m.role with
    | .opens _ => m :: around
    | .closes _ => around.tail
    | .inside | .divides _ => around
  else around

def Idle (home : Home) (m : Moment) : Prop := m.home ≠ home ∨ m.role.isBracket = false

theorem Idle.turn {home : Home} {m : Moment} (idle : m.Idle home) (around : List Moment) :
    m.turn home around = around := by
  unfold Moment.turn
  split
  · rename_i here
    have inside := idle.resolve_left (· here)
    cases role : m.role <;> simp [role, Role.isBracket] at inside ⊢
  · rfl

theorem role_of_not_isStatement {m : Moment} (other : m.isStatement = false) :
    m.role = .inside := by
  cases deed : m.deed <;> simp [role, statement?, isStatement, deed] at other ⊢

def construct (m : Moment) : Cpp.Construct :=
  match m.statement? with
  | some (.plain _ a) => a.construct
  | _ => .other

def lineNumber (m : Moment) : Nat := (m.sketch.buffer m.home.scope).length + 1

def opening (m : Moment) : Nat × Cpp.Construct := (m.lineNumber, m.construct)

end Moment

def constructsAround (home : Home) (earlier : List Moment) : List Moment :=
  earlier.foldl (fun around m => m.turn home around) []

theorem constructsAround_append (home : Home) (earlier : List Moment) (m : Moment) :
    constructsAround home (earlier ++ [m]) = m.turn home (constructsAround home earlier) := by
  simp [constructsAround]

variable {ms : List Moment}

theorem constructsAround_idle {home : Home} (idle : ∀ m ∈ ms, m.Idle home) (earlier : List Moment) :
    constructsAround home (earlier ++ ms) = constructsAround home earlier := by
  induction ms generalizing earlier with
  | nil => rw [List.append_nil]
  | cons m rest ih =>
    obtain ⟨first, others⟩ := List.forall_mem_cons.1 idle
    rw [← List.singleton_append, ← List.append_assoc, ih others, constructsAround_append,
      first.turn]

structure Follows (around : List Moment) (lines : List SketchLine) : Prop where
  constructs : enclosing lines = around.map Moment.opening
  generated : ∀ o ∈ around, ∃ line, lines[o.lineNumber]? = some line ∧
    line.origin = ⟨o.statement?, true⟩

namespace Follows

variable {around : List Moment} {lines new : List SketchLine}

theorem nil (balanced : enclosing lines = []) : Follows [] lines := ⟨balanced, by simp⟩

theorem kept (follows : Follows around lines) (new : List SketchLine) :
    ∀ o ∈ around, ∃ line, (lines ++ new)[o.lineNumber]? = some line ∧
      line.origin = ⟨o.statement?, true⟩ := by
  intro o mem
  obtain ⟨line, found, origin⟩ := follows.generated o mem
  have within : o.lineNumber < lines.length := (List.getElem?_eq_some_iff.1 found).1
  exact ⟨line, by rw [List.getElem?_append_left within, found], origin⟩

theorem neutral (follows : Follows around lines) (neutral : Neutral new) :
    Follows around (lines ++ new) := by
  refine ⟨?_, follows.kept new⟩
  rw [SketchLine.enclosing, List.map_append, Cpp.enclosing_append, neutral]
  exact follows.constructs

end Follows

def Moment.Tracks (earlier : List Moment) (m : Moment) : Prop :=
  m.isStatement = true → m.sketch.capture = none →
    m.sketch.author = m.statement? ∧ m.sketch.landing m.sketch.scope = m.home.scope ∧
      Follows (constructsAround m.home earlier) (m.sketch.buffer m.home.scope)

def Tracked (earlier : List Moment) : List Moment → Prop
  | [] => True
  | m :: rest => m.Tracks earlier ∧ Tracked (earlier ++ [m]) rest

theorem tracked_append {earlier more : List Moment} :
    Tracked earlier (ms ++ more) ↔ Tracked earlier ms ∧ Tracked (earlier ++ ms) more := by
  induction ms generalizing earlier with
  | nil => simp [Tracked]
  | cons m rest ih => simp [Tracked, ih, and_assoc]

theorem Tracked.at {earlier front later : List Moment} {m : Moment}
    (tracked : Tracked earlier (front ++ m :: later)) : m.Tracks (earlier ++ front) :=
  (tracked_append.1 tracked).2.1

theorem tracked_silent (silent : ∀ m ∈ ms, m.isStatement = true → m.sketch.capture.isSome = true) :
    ∀ earlier, Tracked earlier ms := by
  induction ms with
  | nil => exact fun _ => trivial
  | cons m rest ih =>
    obtain ⟨first, others⟩ := List.forall_mem_cons.1 silent
    refine fun earlier => ⟨fun isStatement writing => ?_, ih others _⟩
    simp [writing] at first
    simp [first] at isStatement

def Role.nest (blocks : List Block) : Role → Option (List Block)
  | .inside => some blocks
  | .opens block => some (block :: blocks)
  | .divides block => if blocks.head? = some block then some blocks else none
  | .closes block => if blocks.head? = some block then some blocks.tail else none

mutual

/-- The blocks that are open behind a statement of a body. -/
def Statement.nest (blocks : List Block) : Statement → Option (List Block)
  | .plain _ a => if a.role = .inside ∧ a.isCalm = false then none else a.role.nest blocks
  | .inlineIf _ _ thenBranch => if thenBranch.isBranch then some blocks else none
  | .inlineIfElse _ _ thenBranch elseBranch =>
    if thenBranch.isBranch && elseBranch.isBranch then some blocks else none
  | .every _ _ body => if Statement.nestAll [] body = some [] then some blocks else none

def Statement.nestAll (blocks : List Block) : List Statement → Option (List Block)
  | [] => some blocks
  | first :: rest => (first.nest blocks).bind fun blocks => Statement.nestAll blocks rest

end

/-- Procedures stand one behind the other, each with a header and an end, and no block reaches
into a procedure or out of one. -/
def nestsFrom (inside : Bool) (blocks : List Block) : List Statement → Bool
  | [] => !inside && blocks.isEmpty
  | .plain _ (.procedureStart _) :: rest => !inside && blocks.isEmpty && nestsFrom true [] rest
  | .plain _ (.procedureEnd _) :: rest => inside && blocks.isEmpty && nestsFrom false [] rest
  | first :: rest => (first.nest blocks).any fun blocks => nestsFrom inside blocks rest

def WellNested (sts : List Statement) : Prop := nestsFrom false [] sts = true

instance (sts : List Statement) : Decidable (WellNested sts) :=
  inferInstanceAs (Decidable (nestsFrom false [] sts = true))

namespace Sketch

def Heard (p : Position) (earlier : List Moment) : Prop := ∀ m ∈ earlier, m.home.number ≤ p.begun

/-- What is written between two places of a body. -/
structure Nests (p : Position) (s : Sketch) (blocks : List Block) (ms : List Moment)
    (p' : Position) (s' : Sketch) (blocks' : List Block) : Prop where
  home : p'.home = p.home
  begun : p.begun ≤ p'.begun
  capture : s'.capture.isSome = s.capture.isSome
  homes : ∀ m ∈ ms, m.home = p.home ∨ p.begun < m.home.number ∧ m.home.number ≤ p'.begun
  others : ∀ b, b ≠ p.home.scope → ∃ new, s'.buffer b = s.buffer b ++ new ∧ Neutral new
  own : ∀ earlier, Heard p earlier →
    Follows (constructsAround p.home earlier) (s.buffer p.home.scope) →
    Tracked earlier ms ∧
      Follows (constructsAround p.home (earlier ++ ms)) (s'.buffer p.home.scope)
  count : ∀ earlier, Heard p earlier →
    (constructsAround p.home earlier).length = blocks.length →
    (constructsAround p.home (earlier ++ ms)).length = blocks'.length

namespace Nests

variable {p p' p'' : Position} {s s' s'' : Sketch} {blocks blocks' blocks'' : List Block}
  {ms more : List Moment}

theorem heard (number : p.home.number ≤ p.begun) (nests : Nests p s blocks ms p' s' blocks')
    {earlier : List Moment} (heard : Heard p earlier) : Heard p' (earlier ++ ms) := by
  refine List.forall_mem_append.2 ⟨fun m mem => ?_, fun m mem => ?_⟩
  · exact Nat.le_trans (heard m mem) nests.begun
  · rcases nests.homes m mem with here | ⟨-, le⟩
    · rw [here]
      exact Nat.le_trans number nests.begun
    · exact le

theorem trans (number : p.home.number ≤ p.begun) (first : Nests p s blocks ms p' s' blocks')
    (second : Nests p' s' blocks' more p'' s'' blocks'') :
    Nests p s blocks (ms ++ more) p'' s'' blocks'' where
  home := second.home.trans first.home
  begun := Nat.le_trans first.begun second.begun
  capture := second.capture.trans first.capture
  homes := by
    refine List.forall_mem_append.2 ⟨fun m mem => ?_, fun m mem => ?_⟩
    · exact (first.homes m mem).imp_right fun ⟨lt, le⟩ => ⟨lt, Nat.le_trans le second.begun⟩
    · rw [← first.home]
      exact (second.homes m mem).imp_right fun ⟨lt, le⟩ => ⟨Nat.lt_of_le_of_lt first.begun lt, le⟩
  others b apart := by
    obtain ⟨new, eq, neutral⟩ := first.others b apart
    obtain ⟨new', eq', neutral'⟩ := second.others b (first.home ▸ apart)
    exact ⟨new ++ new', by rw [eq', eq, List.append_assoc], neutral_append neutral neutral'⟩
  own earlier heard follows := by
    obtain ⟨tracked, between⟩ := first.own earlier heard follows
    obtain ⟨tracked', behind⟩ := second.own (earlier ++ ms) (first.heard number heard)
      (by rw [first.home]; exact between)
    rw [first.home, List.append_assoc] at behind
    exact ⟨tracked_append.2 ⟨tracked, tracked'⟩, behind⟩
  count earlier heard before := by
    have between := first.count earlier heard before
    have behind := second.count (earlier ++ ms) (first.heard number heard)
      (by rw [first.home]; exact between)
    rwa [first.home, List.append_assoc] at behind

theorem refl (p : Position) (s : Sketch) (blocks : List Block) :
    Nests p s blocks [] p s blocks where
  home := rfl
  begun := Nat.le_refl _
  capture := rfl
  homes := by simp
  others _ _ := ⟨[], by simp, fun _ _ => rfl⟩
  own earlier _ follows := ⟨trivial, by rwa [List.append_nil]⟩
  count earlier _ before := by rwa [List.append_nil]

end Nests

structure Faces (p : Position) (s : Sketch) (st : Statement) : Prop where
  fits : Fits p s
  author : s.author = some st
  marked : s.marked = []
  capture : s.capture = none

variable {p : Position} {s : Sketch} {a : Action}

theorem Faces.tracks {st : Statement} (faces : Faces p s st) {earlier : List Moment}
    (follows : Follows (constructsAround p.home earlier) (s.buffer p.home.scope)) :
    Moment.Tracks earlier ⟨p.home, s, .statement st⟩ :=
  fun _ _ => ⟨faces.author, faces.fits.landing, follows⟩

namespace Nests

variable {p : Position} {s s' : Sketch} {st : Statement} {blocks : List Block} {ms : List Moment}

theorem calm (faces : Faces p s st) (inside : st.role.isBracket = false) (calm : Calm s s')
    (homes : ∀ m ∈ ms, m.home = p.home) (idle : ∀ m ∈ ms, m.role.isBracket = false)
    (silent : ∀ m ∈ ms, m.isStatement = true → m.sketch.capture.isSome = true) :
    Nests p s blocks (⟨p.home, s, .statement st⟩ :: ms) p s' blocks := by
  have all : ∀ m ∈ ⟨p.home, s, .statement st⟩ :: ms, m.Idle p.home :=
    List.forall_mem_cons.2 ⟨.inr inside, fun m mem => .inr (idle m mem)⟩
  exact
    { home := rfl
      begun := Nat.le_refl _
      capture := calm.capture
      homes := List.forall_mem_cons.2 ⟨.inl rfl, fun m mem => .inl (homes m mem)⟩
      others := fun b _ => by
        obtain ⟨new, eq, neutral, -⟩ := calm.lines b
        exact ⟨new, eq, neutral⟩
      own := fun earlier heard follows => by
        refine ⟨⟨faces.tracks follows, tracked_silent silent _⟩, ?_⟩
        obtain ⟨new, eq, neutral, -⟩ := calm.lines p.home.scope
        rw [constructsAround_idle all, eq]
        exact follows.neutral neutral
      count := fun earlier _ before => by rw [constructsAround_idle all, before] }

theorem buffer_emit (fits : Fits p s) (writing : s.capture = none) (text : String) (b : Scope) :
    (s.emit text).buffer b =
      s.buffer b ++ if b = p.home.scope then s.pushed true s.scope s.depth text else [] := by
  rw [emit, buffer_push _ _ _ _ _ writing, fits.landing]

theorem opens {n : Nat} {a : Action} {block : Block} (role : a.role = .opens block)
    (faces : Faces p s (.plain n a)) :
    Nests p s blocks [⟨p.home, s, .statement (.plain n a)⟩] p (s.perform a) (block :: blocks) := by
  let m : Moment := ⟨p.home, s, .statement (.plain n a)⟩
  obtain ⟨text, top, eq, bears⟩ := perform_opening role s
  have turned (around : List Moment) : m.turn p.home around = m :: around := by
    have opens : m.role = .opens block := role
    simp [Moment.turn, opens, m]
  -- the marker comes first, so the line of code is the second
  have pushed : s.pushed true s.scope s.depth text =
      [.marker ⟨m.statement?, true⟩ s.depth s.line, .code ⟨m.statement?, true⟩ s.depth text] := by
    rw [Sketch.pushed, faces.marked, faces.author]
    rfl
  have lines (b : Scope) : (s.perform a).buffer b =
      s.buffer b ++ if b = p.home.scope then s.pushed true s.scope s.depth text else [] := by
    rw [← buffer_emit faces.fits faces.capture text b, eq]
    cases b <;> rfl
  refine
    { home := rfl
      begun := Nat.le_refl _
      capture := by rw [eq]; exact push_isSome_capture ..
      homes := by simp
      others := fun b apart => ⟨[], by rw [lines, if_neg apart], fun _ _ => rfl⟩
      own := fun earlier heard follows => ⟨⟨faces.tracks follows, trivial⟩, ?_⟩
      count := fun earlier _ before => by
        rw [constructsAround_append, turned, List.length_cons, before, List.length_cons] }
  rw [constructsAround_append, turned, lines, if_pos rfl]
  refine ⟨?_, List.forall_mem_cons.2 ⟨?_, follows.kept _⟩⟩
  · rw [SketchLine.enclosing, List.map_append, Cpp.enclosing_append, Calm.bearing_pushed, bears,
      pushed, List.length_map]
    exact congrArg ((m.lineNumber, a.construct) :: ·) follows.constructs
  · refine ⟨.code ⟨m.statement?, true⟩ s.depth text, ?_, rfl⟩
    rw [pushed]
    simp [m, Moment.lineNumber]

theorem closes {n : Nat} {a : Action} {block : Block} (role : a.role = .closes block)
    (faces : Faces p s (.plain n a)) :
    Nests p s blocks [⟨p.home, s, .statement (.plain n a)⟩] p (s.perform a) blocks.tail := by
  let m : Moment := ⟨p.home, s, .statement (.plain n a)⟩
  obtain ⟨t, text, eq, calm, bears⟩ := perform_closing role s
  have turned (around : List Moment) : m.turn p.home around = around.tail := by
    have closes : m.role = .closes block := role
    simp [Moment.turn, closes, m]
  have fits : Fits p t :=
    ⟨calm.scope.trans faces.fits.scope, by
      rw [calm.scope, calm.opened]; exact faces.fits.opened, faces.fits.number⟩
  have writing : t.capture = none := by simpa [faces.capture] using calm.capture
  refine
    { home := rfl
      begun := Nat.le_refl _
      capture := by rw [eq, emit, push_isSome_capture, calm.capture]
      homes := by simp
      others := fun b apart => ?_
      own := fun earlier heard follows => ⟨⟨faces.tracks follows, trivial⟩, ?_⟩
      count := fun earlier _ before => by
        rw [constructsAround_append, turned, List.length_tail, before, List.length_tail] }
  · obtain ⟨new, same, neutral, -⟩ := calm.lines b
    exact ⟨new, by rw [eq, buffer_emit fits writing, if_neg apart, List.append_nil, same], neutral⟩
  · obtain ⟨new, same, neutral, -⟩ := calm.lines p.home.scope
    have within := follows.neutral neutral
    rw [constructsAround_append, turned, eq, buffer_emit fits writing, if_pos rfl, same]
    refine ⟨?_, fun o mem => within.kept _ o (List.mem_of_mem_tail mem)⟩
    rw [SketchLine.enclosing, List.map_append, Cpp.enclosing_append, Calm.bearing_pushed, bears,
      List.map_tail, ← within.constructs]
    rfl

end Nests

theorem actionMoments_of_role (apart : a.role ≠ .inside) (s : Sketch) (p : Position) :
    s.actionMoments p a = [] := by
  cases a <;> first | rfl | exact absurd rfl apart

theorem moves_of_role (apart : a.role ≠ .inside) (p : Position) : a.moves p = p := by
  cases a <;> first | rfl | exact absurd rfl apart

theorem moves_of_isCalm (calm : a.isCalm = true) (p : Position) : a.moves p = p := by
  cases a <;> first | rfl | simp [Action.isCalm, Action.isPlain] at calm

theorem role_of_isCalm (calm : a.isCalm = true) : a.role = .inside := by
  cases a <;> first | rfl | simp [Action.isCalm, Action.isPlain] at calm

theorem moves_of_isBranch : (st : Statement) → st.isBranch = true → (p : Position) →
    st.moves p = p
  | .plain _ _, calm, p => moves_of_isCalm calm p
  | .inlineIf _ _ thenBranch, calm, p => moves_of_isBranch thenBranch calm p
  | .inlineIfElse _ _ thenBranch elseBranch, calm, p => by
    obtain ⟨first, second⟩ := Bool.and_eq_true_iff.1 calm
    rw [Statement.moves, moves_of_isBranch thenBranch first, moves_of_isBranch elseBranch second]

def Hidden (p : Position) (m : Moment) : Prop :=
  m.home = p.home ∧ m.role.isBracket = false ∧
    (m.isStatement = true → m.sketch.capture.isSome = true)

theorem hidden_actionMoments (s : Sketch) (p : Position) (a : Action) :
    ∀ m ∈ s.actionMoments p a, Hidden p m := by
  intro m mem
  obtain ⟨home, other⟩ := home_actionMoments m mem
  exact ⟨home, by rw [Moment.role_of_not_isStatement other]; rfl, by simp [other]⟩

theorem hidden_moments : (st : Statement) → st.isBranch = true → (p : Position) → (s : Sketch) →
    s.capture.isSome = true → ∀ m ∈ s.moments p st, Hidden p m
  | .plain n a, calm, p, s, capturing => by
    refine List.forall_mem_cons.2 ⟨⟨rfl, ?_, fun _ => capturing⟩, hidden_actionMoments s p a⟩
    rw [show Moment.role ⟨p.home, s, .statement (.plain n a)⟩ = .inside from role_of_isCalm calm]
    rfl
  | .inlineIf n c thenBranch, calm, p, s, capturing =>
    List.forall_mem_cons.2 ⟨⟨rfl, rfl, fun _ => capturing⟩, hidden_moments thenBranch calm p _ rfl⟩
  | .inlineIfElse n c thenBranch elseBranch, calm, p, s, capturing => by
    obtain ⟨first, second⟩ := Bool.and_eq_true_iff.1 calm
    refine List.forall_mem_cons.2 ⟨⟨rfl, rfl, fun _ => capturing⟩, List.forall_mem_append.2
      ⟨hidden_moments thenBranch first p _ rfl, ?_⟩⟩
    rw [moves_of_isBranch thenBranch first]
    exact hidden_moments elseBranch second p _ rfl

namespace Nests

variable {p : Position} {s s' : Sketch} {blocks blocks' : List Block}

theorem hidden {st : Statement} {ms : List Moment} (faces : Faces p s st)
    (inside : st.role.isBracket = false) (calm : Calm s s') (hidden : ∀ m ∈ ms, Hidden p m) :
    Nests p s blocks (⟨p.home, s, .statement st⟩ :: ms) p s' blocks :=
  Nests.calm faces inside calm (fun m mem => (hidden m mem).1) (fun m mem => (hidden m mem).2.1)
    fun m mem => (hidden m mem).2.2

theorem plain {n : Nat} {a : Action} (faces : Faces p s (.plain n a)) (clean : a.Clean)
    (nest : (Statement.plain n a).nest blocks = some blocks') :
    Nests p s blocks (s.moments p (.plain n a)) (a.moves p) (s.perform a) blocks' := by
  obtain ⟨known, nests⟩ : ¬(a.role = .inside ∧ a.isCalm = false) ∧
      a.role.nest blocks = some blocks' := by
    simpa [Statement.nest] using nest
  rw [moments]
  cases role : a.role with
  | inside =>
    have calm : a.isCalm = true := by simpa [role] using known
    obtain rfl : blocks = blocks' := by simpa [role, Role.nest] using nests
    rw [moves_of_isCalm calm]
    exact hidden faces (by simp [Statement.role, role, Role.isBracket]) 
      (Calm.perform s (Action.isSteady_of_isCalm calm) clean)
      (hidden_actionMoments s p a)
  | divides block =>
    obtain rfl : blocks = blocks' := by
      rw [role, Role.nest, Option.ite_none_right_eq_some] at nests
      exact Option.some.inj nests.2
    rw [moves_of_role (by simp [role]), actionMoments_of_role (by simp [role])]
    exact hidden faces (by simp [Statement.role, role, Role.isBracket]) 
      (Calm.perform s (Action.isSteady_of_divides role) clean)
      (by simp)
  | opens block =>
    obtain rfl : block :: blocks = blocks' := by simpa [role, Role.nest] using nests
    rw [moves_of_role (by simp [role]), actionMoments_of_role (by simp [role])]
    exact opens role faces
  | closes block =>
    obtain rfl : blocks.tail = blocks' := by
      rw [role, Role.nest, Option.ite_none_right_eq_some] at nests
      exact Option.some.inj nests.2
    rw [moves_of_role (by simp [role]), actionMoments_of_role (by simp [role])]
    exact closes role faces

end Nests

theorem endProcedure_elsewhere (fits : Fits p s) :
    s.endProcedure.capture.isSome = s.capture.isSome ∧
      ∀ b, b ≠ .procedure → s.endProcedure.buffer b = s.buffer b := by
  have unwritten (closer : String) (b : Scope) :
      { s.dropBlocks closer with scope := .global }.buffer b = s.buffer b := by
    obtain ⟨blocks, events, eq⟩ := dropBlocks_frame s closer
    rw [eq]
    cases b <;> rfl
  unfold Sketch.endProcedure
  cases inside : s.scope with
  | global => exact ⟨rfl, fun b _ => by cases b <;> rfl⟩
  | setup | loop =>
    refine ⟨?_, fun b _ => unwritten "End Sub" b⟩
    obtain ⟨blocks, events, eq⟩ := dropBlocks_frame s "End Sub"
    rw [eq]
  | procedure =>
    obtain ⟨blocks, events, eq⟩ := dropBlocks_frame s "End"
    have still :
        ({ s with blocks, events }.push false .procedure 0 "\x7d").open?.isSome = true := by
      simpa using fits.opened.1 inside
    obtain ⟨q, opened⟩ := Option.isSome_iff_exists.1 still
    obtain ⟨signatures, events', finished⟩ := finishProcedure_frame opened
    rw [eq, finished]
    refine ⟨by simp, fun b other => ?_⟩
    have pushed := @buffer_push_procedure { s with blocks, events } (fits.opened.1 inside) "\x7d" b
      other
    cases b with
    | procedure => exact absurd rfl other
    | _ => exact pushed

namespace Nests

variable {p q : Position} {s : Sketch} {blocks blocks' : List Block} {ms : List Moment}

theorem every {n : Nat} {interval : Expr} {body : List Statement}
    (faces : Faces p s (.every n interval body)) (fits : Fits q (s.task.statements body))
    (inner : Nests (p.enter .procedure) s.task [] ms q (s.task.statements body) []) :
    Nests p s blocks (⟨p.home, s, .statement (.every n interval body)⟩ :: ms)
      { p with begun := q.begun } (s.place (.every n interval body)) blocks := by
  let m : Moment := ⟨p.home, s, .statement (.every n interval body)⟩
  obtain ⟨-, -, -, taskCapture, -, taskLines, unwritten⟩ := task_frame s
  have announced := Calm.announce s
  have started : Fits q ((s.task.statements body).start s.line) :=
    ⟨fits.scope, fits.opened, fits.number⟩
  obtain ⟨endCapture, endLines⟩ := endProcedure_elsewhere started
  let resumed := (((s.task.statements body).start s.line).endProcedure.leave
    "end of Every block").resume s.announce
  have left : (((s.task.statements body).start s.line).endProcedure.leave "end of Every block") =
      ((s.task.statements body).start s.line).endProcedure :=
    leave_of_global (scope_endProcedure _) _
  have polled := Calm.poll resumed (s.everyCount + 1) (s.value interval)
  have place : s.place (.every n interval body) =
      resumed.poll (s.everyCount + 1) (s.value interval) := rfl
  have between (b : Scope) :
      ∃ new, resumed.buffer b = s.announce.buffer b ++ new ∧ Neutral new := by
    by_cases inTask : b = .procedure
    · subst inTask
      exact ⟨[], by rw [List.append_nil]; rfl, fun _ _ => rfl⟩
    · obtain ⟨new, eq, neutral⟩ := inner.others b inTask
      refine ⟨new, ?_, neutral⟩
      have same := (endLines b inTask).trans
        (show _ = (s.task.statements body).buffer b by cases b <;> rfl)
      rw [eq, taskLines b inTask, ← left] at same
      rw [← same]
      cases b with
      | procedure => exact absurd rfl inTask
      | _ => rfl
  have lines (b : Scope) : ∃ new, (s.place (.every n interval body)).buffer b = s.buffer b ++ new ∧
      Neutral new := by
    obtain ⟨first, eq₁, neutral₁, -⟩ := announced.lines b
    obtain ⟨second, eq₂, neutral₂⟩ := between b
    obtain ⟨third, eq₃, neutral₃, -⟩ := polled.lines b
    refine ⟨first ++ second ++ third, ?_,
      neutral_append (neutral_append neutral₁ neutral₂) neutral₃⟩
    rw [place, eq₃, eq₂, eq₁]
    simp
  -- the moments of the task are those of bodies that begin behind this place
  have later {m : Moment} (mem : m ∈ ms) : p.begun < m.home.number ∧ m.home.number ≤ q.begun := by
    rcases inner.homes m mem with here | ⟨lt, le⟩
    · rw [here]
      exact ⟨Nat.lt_succ_self _, inner.begun⟩
    · exact ⟨Nat.lt_of_succ_lt lt, le⟩
  have number := faces.fits.number
  have idle : ∀ m' ∈ m :: ms, m'.Idle p.home := by
    refine List.forall_mem_cons.2 ⟨.inr rfl, fun m' mem => .inl fun same => ?_⟩
    have new := (later mem).1
    rw [same] at new
    exact absurd number (Nat.not_le.2 new)
  refine
    { home := rfl
      begun := Nat.le_of_succ_le inner.begun
      capture := ?_
      homes := List.forall_mem_cons.2 ⟨.inl rfl, fun m mem => .inr (later mem)⟩
      others := fun b _ => lines b
      own := fun earlier heard follows => ?_
      count := fun earlier _ before => by rw [constructsAround_idle idle, before] }
  · rw [place, polled.capture]
    refine (congrArg (fun t : Sketch => t.capture.isSome) left).trans ?_
    exact endCapture.trans (inner.capture.trans (taskCapture.trans announced.capture))
  · have heard' : Heard (p.enter .procedure) (earlier ++ [m]) := by
      refine List.forall_mem_append.2 ⟨fun m mem => Nat.le_succ_of_le (heard m mem), ?_⟩
      exact List.forall_mem_singleton.2 (Nat.le_succ_of_le number)
    have fresh : constructsAround (p.enter .procedure).home (earlier ++ [m]) = [] := by
      refine constructsAround_idle (fun m' mem => .inl fun same => ?_) []
      have old : m'.home.number ≤ p.begun := by
        rcases List.mem_append.1 mem with before | here
        · exact heard m' before
        · rw [List.mem_singleton.1 here]
          exact number
      rw [same] at old
      exact absurd old (Nat.not_succ_le_self _)
    obtain ⟨tracked, -⟩ := inner.own (earlier ++ [m]) heard' (by
      rw [fresh]
      refine .nil ?_
      rw [show (p.enter .procedure).home.scope = .procedure from rfl, unwritten]
      rfl)
    refine ⟨⟨faces.tracks follows, tracked⟩, ?_⟩
    obtain ⟨new, eq, neutral⟩ := lines p.home.scope
    rw [constructsAround_idle idle, eq]
    exact follows.neutral neutral

theorem statement {st : Statement}
    (nests : Nests p (s.facing st) blocks ms q ((s.facing st).place st) blocks') :
    Nests p s blocks ms q (s.statements [st]) blocks' := by
  have before (b : Scope) : (s.facing st).buffer b = s.buffer b := by cases b <;> rfl
  have after (b : Scope) : (s.statements [st]).buffer b = ((s.facing st).place st).buffer b := by
    cases b <;> rfl
  refine
    { home := nests.home
      begun := nests.begun
      capture := nests.capture
      homes := nests.homes
      others := fun b apart => by rw [after, ← before]; exact nests.others b apart
      own := fun earlier heard follows => ?_
      count := nests.count }
  rw [after]
  exact nests.own earlier heard (by rwa [before])

end Nests

theorem faces_facing (fits : Fits p s) (writing : s.capture = none) (st : Statement) :
    Faces p (s.facing st) st :=
  ⟨⟨fits.scope, fits.opened, fits.number⟩, rfl, rfl, writing⟩

theorem fits_statements (fits : Fits p s) (st : Statement) :
    Fits (st.moves p) (s.statements [st]) := by
  have routes := statements_finishes [st] p s fits
  exact routes.fits

mutual

theorem place_nests : (st : Statement) → (p : Position) → (s : Sketch) → Faces p s st →
    st.Clean → ∀ {blocks blocks' : List Block}, st.nest blocks = some blocks' →
    Nests p s blocks (s.moments p st) (st.moves p) (s.place st) blocks'
  | .plain n a, p, s, faces, clean, _, _, nest => Nests.plain faces clean nest
  | .inlineIf n c thenBranch, p, s, faces, clean, _, _, nest => by
    rw [Statement.nest, Option.ite_none_right_eq_some] at nest
    obtain ⟨branch, rfl⟩ := nest.imp_right Option.some.inj
    rw [moments, Statement.moves, moves_of_isBranch thenBranch branch]
    exact Nests.hidden faces rfl (Calm.place (.inlineIf n c thenBranch) branch clean s)
      (hidden_moments thenBranch branch p _ rfl)
  | .inlineIfElse n c thenBranch elseBranch, p, s, faces, clean, _, _, nest => by
    rw [Statement.nest, Option.ite_none_right_eq_some] at nest
    obtain ⟨branches, rfl⟩ := nest.imp_right Option.some.inj
    obtain ⟨first, second⟩ := Bool.and_eq_true_iff.1 branches
    rw [moments, Statement.moves, moves_of_isBranch thenBranch first,
      moves_of_isBranch elseBranch second]
    exact Nests.hidden faces rfl
      (Calm.place (.inlineIfElse n c thenBranch elseBranch) branches clean s)
      (List.forall_mem_append.2 ⟨hidden_moments thenBranch first p _ rfl,
        hidden_moments elseBranch second p _ rfl⟩)
  | .every n interval body, p, s, faces, clean, _, _, nest => by
    rw [Statement.nest, Option.ite_none_right_eq_some] at nest
    obtain ⟨within, rfl⟩ := nest.imp_right Option.some.inj
    obtain ⟨scope, opened, -, capture, -⟩ := task_frame s
    have fits : Fits (p.enter .procedure) s.task :=
      ⟨scope, by simp [scope, opened], Nat.le_refl _⟩
    have writing : s.task.capture = none := by
      have same := capture.trans (Calm.announce s).capture
      simpa [faces.capture] using same
    have routes := statements_finishes body (p.enter .procedure) s.task fits
    rw [moments, Statement.moves]
    exact Nests.every faces routes.fits
      (statements_nests body (p.enter .procedure) s.task fits writing clean.2 within)

theorem statements_nests : (sts : List Statement) → (p : Position) → (s : Sketch) → Fits p s →
    s.capture = none → Statement.AllClean sts → ∀ {blocks blocks' : List Block},
    Statement.nestAll blocks sts = some blocks' →
    Nests p s blocks (s.allMoments p sts) (Statement.movesAll p sts) (s.statements sts) blocks'
  | [], p, s, _, _, _, _, _, nest => Option.some.inj nest ▸ Nests.refl p s _
  | first :: rest, p, s, fits, writing, clean, _, _, nest => by
    obtain ⟨between, here, behind⟩ := Option.bind_eq_some_iff.1 nest
    have step := (place_nests first p (s.facing first) (faces_facing fits writing first) clean.1
      here).statement
    have writing' : (s.statements [first]).capture = none := by
      simpa [writing] using step.capture
    rw [statements_cons]
    exact step.trans fits.number (statements_nests rest (first.moves p) (s.statements [first])
      (fits_statements fits first) writing' clean.2 behind)

end

theorem Calm.parameterTexts (s : Sketch) (ps : List Parameter) :
    Calm s (s.parameterTexts ps).2.2 := by
  obtain ⟨σ, eq, -⟩ := parameterTexts_frame s ps
  rw [eq]
  exact Calm.symbols s σ

theorem Calm.declares (s : Sketch) (ps : List Parameter) :
    Calm s (ps.foldl (fun s p => s.declare p.name) s) := by
  induction ps generalizing s with
  | nil => exact Calm.refl s
  | cons p rest ih => exact (Calm.declare s p.name).trans (ih _)

theorem procedureStart_neutral {s : Sketch} (outside : s.scope = .global)
    (closed : s.open? = none) (h : ProcedureHeader) (b : Scope) :
    ∃ new, (s.procedureStart h).buffer b = s.buffer b ++ new ∧ Neutral new := by
  have routine (scope : Scope) : (s.enterRoutine scope).buffer b = s.buffer b := by
    rw [enterRoutine, leave_of_global outside]
    cases b <;> rfl
  unfold Sketch.procedureStart
  split
  · exact ⟨[], by rw [routine, List.append_nil], fun _ _ => rfl⟩
  split
  · exact ⟨[], by rw [routine, List.append_nil], fun _ _ => rfl⟩
  · unfold openProcedure
    dsimp only
    generalize Cpp.called _ _ ++ ";" = signature
    generalize Cpp.called _ _ ++ " \x7b" = header
    have texts := Calm.parameterTexts s h.parameters
    have still : (s.parameterTexts h.parameters).2.2.scope = .global := texts.scope.trans outside
    obtain ⟨-, unwritten⟩ := enterProcedure_unwritten still signature header
    obtain ⟨-, -, -, -, -, -, lines⟩ := enterProcedure_outside still signature header
    have named := (Calm.declare
      ((s.parameterTexts h.parameters).2.2.enterProcedure signature header)
      h.name).trans (Calm.declares _ h.parameters)
    obtain ⟨new, eq, neutral, -⟩ := named.lines b
    by_cases inside : b = .procedure
    · subst inside
      refine ⟨new, ?_, neutral⟩
      rw [eq, unwritten, buffer, closed]
      rfl
    · obtain ⟨before, eq', neutral', -⟩ := texts.lines b
      refine ⟨before ++ new, ?_, neutral_append neutral' neutral⟩
      rw [eq, lines b inside, eq', List.append_assoc]

structure Settled (earlier : List Moment) (p : Position) (s : Sketch) (inside : Bool)
    (blocks : List Block) : Prop where
  fits : Fits p s
  writing : s.capture = none
  heard : Heard p earlier
  follows : Follows (constructsAround p.home earlier) (s.buffer p.home.scope)
  count : (constructsAround p.home earlier).length = blocks.length
  home : if inside then p.home.scope ≠ .global ∧ constructsAround .outside earlier = []
    else p.home = .outside
  others : ∀ b, b ≠ .procedure → b ≠ p.home.scope → enclosing (s.buffer b) = []

theorem enclosing_neutral {lines new : List SketchLine} (neutral : Neutral new) :
    enclosing (lines ++ new) = enclosing lines := by
  rw [SketchLine.enclosing, List.map_append, Cpp.enclosing_append, neutral]
  rfl

namespace Settled

variable {earlier : List Moment} {p : Position} {s : Sketch} {inside : Bool}
  {blocks blocks' : List Block}

theorem start (options : Options) : Settled [] .start (empty options) false [] where
  fits := ⟨rfl, by simp [empty], Nat.le_refl _⟩
  writing := rfl
  heard := by simp [Heard]
  follows := .nil rfl
  count := rfl
  home := rfl
  others b _ _ := by cases b <;> rfl

theorem tracks (settled : Settled earlier p s inside blocks) (st : Statement) :
    Moment.Tracks earlier ⟨p.home, s.facing st, .statement st⟩ := by
  refine (faces_facing settled.fits settled.writing st).tracks ?_
  have same (b : Scope) : (s.facing st).buffer b = s.buffer b := by cases b <;> rfl
  rw [same]
  exact settled.follows

theorem statement (settled : Settled earlier p s inside blocks) {st : Statement}
    (clean : st.Clean) (nest : st.nest blocks = some blocks') :
    Tracked earlier ((s.facing st).moments p st) ∧
      Settled (earlier ++ (s.facing st).moments p st) (st.moves p) (s.statements [st]) inside
        blocks' := by
  have nests := (place_nests st p (s.facing st) (faces_facing settled.fits settled.writing st)
    clean nest).statement
  obtain ⟨tracked, follows⟩ := nests.own earlier settled.heard settled.follows
  refine ⟨tracked,
    { fits := fits_statements settled.fits st
      writing := by simpa [settled.writing] using nests.capture
      heard := nests.heard settled.fits.number settled.heard
      follows := by rw [nests.home]; exact follows
      count := by rw [nests.home]; exact nests.count earlier settled.heard settled.count
      home := ?_
      others := fun b plain apart => ?_ }⟩
  · rw [nests.home]
    cases inside with
    | false => exact settled.home
    | true =>
      obtain ⟨scope, idle⟩ := settled.home
      refine ⟨scope, (constructsAround_idle (fun m mem => .inl fun same => ?_) earlier).trans idle⟩
      rcases nests.homes m mem with here | ⟨later, -⟩
      · exact scope (by rw [← here, same]; rfl)
      · rw [same] at later
        exact absurd later (Nat.not_lt_zero _)
  · rw [nests.home] at apart
    obtain ⟨new, eq, neutral⟩ := nests.others b apart
    rw [eq, enclosing_neutral neutral]
    exact settled.others b plain apart

theorem tracked_action (settled : Settled earlier p s inside blocks) (n : Nat) (a : Action) :
    Tracked earlier ((s.facing (.plain n a)).moments p (.plain n a)) :=
  ⟨settled.tracks _, tracked_silent (fun m mem => (hidden_actionMoments _ p a m mem).2.2) _⟩

theorem idle_action (role : a.role = .inside) (s : Sketch) (p : Position) (n : Nat) (home : Home) :
    ∀ m ∈ s.moments p (.plain n a), m.Idle home := by
  refine List.forall_mem_cons.2 ⟨.inr ?_, fun m mem => .inr (hidden_actionMoments s p a m mem).2.1⟩
  rw [show Moment.role ⟨p.home, s, .statement (.plain n a)⟩ = .inside from role]
  rfl

theorem none_around (settled : Settled earlier p s inside []) :
    constructsAround p.home earlier = [] :=
  List.length_eq_zero_iff.1 settled.count

theorem balanced (settled : Settled earlier p s inside []) {b : Scope} (plain : b ≠ .procedure) :
    enclosing (s.buffer b) = [] := by
  by_cases here : b = p.home.scope
  · rw [here, settled.follows.constructs, settled.none_around]
    rfl
  · exact settled.others b plain here

theorem enters (settled : Settled earlier p s false []) (n : Nat) (h : ProcedureHeader) :
    Settled (earlier ++ (s.facing (.plain n (.procedureStart h))).moments p
      (.plain n (.procedureStart h))) (p.enter h.scope)
      (s.statements [.plain n (.procedureStart h)]) true [] := by
  generalize opener : Statement.plain n (.procedureStart h) = st
  have home : p.home = .outside := settled.home
  have scope : s.scope = .global := settled.fits.scope.trans (by rw [home]; rfl)
  have closed : s.open? = none := by
    have none_open := mt settled.fits.opened.2 (by simp [scope])
    simpa using none_open
  have inner : h.scope ≠ .global := by
    unfold ProcedureHeader.scope
    repeat' split
    all_goals simp
  have lines (b : Scope) :
      ∃ new, (s.statements [st]).buffer b = s.buffer b ++ new ∧ Neutral new := by
    obtain ⟨new, eq, neutral⟩ := @procedureStart_neutral (s.facing st) scope closed h b
    have before : (s.facing st).buffer b = s.buffer b := by cases b <;> rfl
    refine ⟨new, ?_, neutral⟩
    rw [← before, ← eq, ← opener]
    cases b <;> rfl
  have open_none (b : Scope) : enclosing ((s.statements [st]).buffer b) = [] := by
    obtain ⟨new, eq, neutral⟩ := lines b
    rw [eq, enclosing_neutral neutral]
    by_cases inside : b = .procedure
    · rw [inside, buffer, closed]
      rfl
    · exact settled.balanced inside
  have homes : ∀ m ∈ (s.facing st).moments p st, m.home = p.home := by
    rw [← opener]
    exact List.forall_mem_cons.2 ⟨rfl, fun m mem => (hidden_actionMoments _ p _ m mem).1⟩
  have heard : ∀ m ∈ earlier ++ (s.facing st).moments p st, m.home.number ≤ p.begun := by
    refine List.forall_mem_append.2 ⟨settled.heard, fun m mem => ?_⟩
    rw [homes m mem]
    exact settled.fits.number
  have fresh : constructsAround (p.enter h.scope).home
      (earlier ++ (s.facing st).moments p st) = [] := by
    refine constructsAround_idle (fun m mem => .inl fun same => ?_) []
    have old := heard m mem
    rw [same] at old
    exact absurd old (Nat.not_succ_le_self _)
  have routes := statements_finishes [st] p s settled.fits
  refine
    { fits := by have fits := routes.fits; rwa [← opener] at fits ⊢
      writing := by simpa [settled.writing] using routes.capture
      heard := fun m mem => Nat.le_succ_of_le (heard m mem)
      follows := by rw [fresh]; exact .nil (open_none _)
      count := by rw [fresh]; rfl
      home := ⟨inner, ?_⟩
      others := fun b _ _ => open_none b }
  rw [← opener, constructsAround_idle (idle_action rfl _ p n _), ← home]
  exact settled.none_around

theorem leaves (settled : Settled earlier p s true []) (n : Nat) (kind : ProcedureKind) :
    Settled (earlier ++ (s.facing (.plain n (.procedureEnd kind))).moments p
      (.plain n (.procedureEnd kind))) p.leave
      (s.statements [.plain n (.procedureEnd kind)]) false [] := by
  generalize closer : Statement.plain n (.procedureEnd kind) = st
  obtain ⟨scope, none_outside⟩ := settled.home
  have lines {b : Scope} (plain : b ≠ .procedure) :
      (s.statements [st]).buffer b = s.buffer b := by
    have facing := (faces_facing settled.fits settled.writing st).fits
    have same := (endProcedure_elsewhere facing).2 b plain
    have before : (s.facing st).buffer b = s.buffer b := by cases b <;> rfl
    rw [← before, ← same, ← closer]
    cases b <;> rfl
  have homes : ∀ m ∈ (s.facing st).moments p st, m.home = p.home := by
    rw [← closer]
    exact List.forall_mem_cons.2 ⟨rfl, fun m mem => (hidden_actionMoments _ p _ m mem).1⟩
  have idle : constructsAround .outside (earlier ++ (s.facing st).moments p st) = [] := by
    rw [← closer, constructsAround_idle (idle_action rfl _ p n _)]
    exact none_outside
  have routes := statements_finishes [st] p s settled.fits
  exact
    { fits := by have fits := routes.fits; rwa [← closer] at fits ⊢
      writing := by simpa [settled.writing] using routes.capture
      heard := by
        refine List.forall_mem_append.2 ⟨settled.heard, fun m mem => ?_⟩
        rw [homes m mem]
        exact settled.fits.number
      follows := by
        rw [show p.leave.home = .outside from rfl, idle]
        exact .nil (by rw [lines (by decide)]; exact settled.balanced (by decide))
      count := by rw [show p.leave.home = .outside from rfl, idle]; rfl
      home := rfl
      others := fun b plain _ => by rw [lines plain]; exact settled.balanced plain }

end Settled

theorem tracked_program : (sts : List Statement) → ∀ {earlier : List Moment} {p : Position}
    {s : Sketch} {inside : Bool} {blocks : List Block}, nestsFrom inside blocks sts = true →
    Statement.AllClean sts → Settled earlier p s inside blocks →
    Tracked earlier (s.allMoments p sts)
  | [], _, _, _, _, _, _, _, _ => trivial
  | first :: rest, earlier, p, s, inside, blocks, nests, clean, settled => by
    rw [allMoments, tracked_append]
    unfold nestsFrom at nests
    split at nests
    · rename_i none_left
      cases none_left
    · rename_i n h others eq
      obtain ⟨rfl, rfl⟩ := List.cons.inj eq
      simp only [Bool.and_eq_true, Bool.not_eq_true', List.isEmpty_iff] at nests
      obtain ⟨⟨rfl, rfl⟩, behind⟩ := nests
      exact ⟨settled.tracked_action n _, tracked_program rest behind clean.2 (settled.enters n h)⟩
    · rename_i n kind others eq
      obtain ⟨rfl, rfl⟩ := List.cons.inj eq
      simp only [Bool.and_eq_true, List.isEmpty_iff] at nests
      obtain ⟨⟨rfl, rfl⟩, behind⟩ := nests
      exact ⟨settled.tracked_action n _,
        tracked_program rest behind clean.2 (settled.leaves n kind)⟩
    · rename_i st others _ _ eq
      obtain ⟨rfl, rfl⟩ := List.cons.inj eq
      obtain ⟨between, here, behind⟩ := (Option.any_eq_true _ _).1 nests
      obtain ⟨tracked, after⟩ := settled.statement clean.1 here
      exact ⟨tracked, tracked_program rest behind clean.2 after⟩

theorem tracked_moments {source : String} (options : Options)
    (nested : WellNested (Program.ofSource source).statements) :
    Tracked [] (momentsOf options (Program.ofSource source).statements) :=
  tracked_program _ nested (clean_ofSource source) (Settled.start options)

end Sketch

end BasicSketch
