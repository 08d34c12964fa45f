import BasicSketch.Proofs.ConstructNesting
import BasicSketch.Proofs.PlainLines

set_option autoImplicit false

/-! Where jumps lead. -/

namespace BasicSketch

open Text SketchLine

inductive Jump where
  | exit | next
  deriving DecidableEq, Repr

namespace Jump

def action : Jump → Action
  | .exit => .exitLoop
  | .next => .continueLoop

def text : Jump → String
  | .exit => "break;"
  | .next => "continue;"

def lines : Jump → List (Block × String)
  | .exit => [(.counted, "Exit For"), (.whileLoop, "Exit While"), (.doLoop false, "Exit Do"),
      (.select false, "Exit Select")]
  | .next => [(.counted, "Continue For"), (.whileLoop, "Continue While"),
      (.doLoop false, "Continue Do")]

def names (jump : Jump) (block : Block) : Bool := jump.lines.any (·.1 == block)

/-- In C++ a `break` leaves a loop or a `switch`, a `continue` goes on with a loop. -/
def leaves : Jump → Cpp.Construct → Bool
  | _, .forLoop | _, .whileLoop | _, .doLoop | .exit, .switch => true
  | _, _ => false

/-- The construct that a jump behind these lines of a body leaves. -/
def left (jump : Jump) (lines : List SketchLine) : Option (Nat × Cpp.Construct) :=
  (enclosing lines).find? fun c => jump.leaves c.2

theorem read_lines (jump : Jump) :
    ∀ line ∈ jump.lines, LineForm.ofText line.2 = .action jump.action := by
  cases jump <;> decide +kernel

theorem leaves_construct (jump : Jump) {a : Action} {block : Block} (role : a.role = .opens block) :
    jump.leaves a.construct = jump.names block := by
  cases a with
  | doLoop test =>
    cases role
    cases test <;> cases jump <;> rfl
  | _ => cases role <;> cases jump <;> rfl

theorem perform_action (jump : Jump) (s : Sketch) : s.perform jump.action = s.emit jump.text := by
  cases jump <;> rfl

theorem trim_text (jump : Jump) : trim jump.text = jump.text := by
  cases jump <;> decide

end Jump

def Moment.block? (m : Moment) : Option Block :=
  match m.role with
  | .opens block => some block
  | _ => none

theorem role_of_mem_constructsAround {home : Home} {o : Moment} {earlier : List Moment}
    (mem : o ∈ constructsAround home earlier) : ∃ block, o.role = .opens block := by
  have run (ms around : List Moment) (opened : ∀ o ∈ around, ∃ block, o.role = .opens block) :
      ∀ o ∈ ms.foldl (fun around m => m.turn home around) around,
        ∃ block, o.role = .opens block := by
    induction ms generalizing around with
    | nil => exact opened
    | cons m rest ih =>
      refine ih _ fun o mem => ?_
      unfold Moment.turn at mem
      dsimp only at mem
      split at mem
      · split at mem
        · rename_i block role
          rcases List.mem_cons.1 mem with rfl | before
          · exact ⟨block, role⟩
          · exact opened o before
        · exact opened o (List.mem_of_mem_tail mem)
        · exact opened o mem
        · exact opened o mem
      · exact opened o mem
  exact run earlier [] (by simp) o mem

theorem Moment.leaves_construct {m : Moment} {block : Block} (role : m.role = .opens block)
    (jump : Jump) : jump.leaves m.construct = m.block?.any jump.names := by
  obtain ⟨st, here, opens⟩ : ∃ st, m.statement? = some st ∧ st.role = .opens block := by
    cases known : m.statement? with
    | none => simp [Moment.role, known] at role
    | some st => exact ⟨st, rfl, by simpa [Moment.role, known] using role⟩
  cases st with
  | plain n a =>
    rw [Moment.construct, here, Moment.block?, role]
    exact jump.leaves_construct opens
  | _ => cases opens

section Left

variable {around between outer : List Moment} {o : Moment} {lines : List SketchLine}

theorem left_eq (follows : Follows around lines)
    (opened : ∀ o ∈ around, ∃ block, o.role = .opens block) (jump : Jump) :
    jump.left lines = (around.find? fun o => o.block?.any jump.names).map Moment.opening := by
  have same : around.find? (fun o => jump.leaves o.construct) =
      around.find? fun o => o.block?.any jump.names := by
    clear follows
    induction around with
    | nil => rfl
    | cons o rest ih =>
      obtain ⟨⟨block, role⟩, others⟩ := List.forall_mem_cons.1 opened
      simp only [List.find?_cons, Moment.leaves_construct role, ih others]
  rw [Jump.left, follows.constructs, List.find?_map, ← same]
  rfl

theorem lineNumber_lt (follows : Follows (between ++ o :: outer) lines) :
    ∀ o' ∈ between, o.lineNumber < o'.lineNumber := by
  intro o' mem
  have sorted : ((enclosing lines).map Prod.fst).Pairwise (· > ·) :=
    Cpp.follow_increasing (by simp) List.Pairwise.nil
  rw [follows.constructs, List.map_map, List.map_append] at sorted
  exact (List.pairwise_append.1 sorted).2.2 _ (List.mem_map_of_mem mem) _ (by simp; exact .inl rfl)

theorem left_iff (follows : Follows (between ++ o :: outer) lines)
    (opened : ∀ o' ∈ between ++ o :: outer, ∃ block, o'.role = .opens block) {jump : Jump}
    (named : o.block?.any jump.names = true) :
    jump.left lines = some o.opening ↔ ∀ o' ∈ between, o'.block?.any jump.names = false := by
  rw [left_eq follows opened, List.find?_append]
  constructor
  · intro found o' mem
    cases inner : between.find? fun o => o.block?.any jump.names with
    | none => simpa using List.find?_eq_none.1 inner o' mem
    | some o'' =>
      -- then the jump would leave a block that is opened by a later line
      rw [inner] at found
      have same : o''.lineNumber = o.lineNumber := congrArg Prod.fst (Option.some.inj found)
      have later := lineNumber_lt follows o'' (List.mem_of_find?_eq_some inner)
      exact absurd same (Nat.ne_of_gt later)
  · intro none_between
    have inner : between.find? (fun o => o.block?.any jump.names) = none :=
      List.find?_eq_none.2 fun o' mem => by simp [none_between o' mem]
    rw [inner, Option.none_or, List.find?_cons, named]
    rfl

end Left

theorem infix_intercalate {sep text : String} {texts : List String} (mem : text ∈ texts) :
    text.toList <:+: (sep.intercalate texts).toList := by
  induction texts with
  | nil => simp at mem
  | cons first rest ih =>
    by_cases alone : rest = []
    · subst alone
      obtain rfl := List.mem_singleton.1 mem
      simp
    · rw [String.intercalate_cons_of_ne_nil alone, String.toList_append, String.toList_append]
      rcases List.mem_cons.1 mem with rfl | later
      · exact ((List.prefix_append _ _).trans (List.prefix_append _ _)).isInfix
      · exact (ih later).trans (List.suffix_append _ _).isInfix

theorem infix_append (front code back : String) :
    code.toList <:+: (front ++ code ++ back).toList := by
  rw [String.toList_append, String.toList_append]
  exact List.infix_append _ _ _

theorem trim_eq_self {text : String} {first last : Char} (begins : Begins first text)
    (ends : Ends last text) (dark : isBlank first = false) (dark' : isBlank last = false) :
    trim text = text :=
  trim_eq_of_ends (by simp [show text.toList.head? = some first from begins, dark])
    (by simp [show text.toList.getLast? = some last from ends, dark'])

namespace Sketch

theorem captured_jump {s t : Sketch} {write : Sketch → Sketch} {text : String} {cs : List Char}
    (placed : write { s with capture := some [] } = t.emit text)
    (calm : Calm { s with capture := some [] } t) (whole : trim text = text)
    (inside : cs <:+: text.toList) : cs <:+: (s.captured write).1.toList := by
  obtain ⟨texts, eq⟩ := Option.isSome_iff_exists.1 calm.capture
  have held : text ∈ (write { s with capture := some [] }).capture.getD [] := by
    rw [placed, emit, push_captured _ _ _ _ _ eq, whole]
    simp
  exact inside.trans (infix_intercalate held)

theorem place_jump {jump : Jump} {n : Nat} : (st : Statement) → st.isBranch = true → st.Clean →
    Statement.plain n jump.action ∈ st.parts → (s : Sketch) →
    ∃ t text, s.place st = t.emit text ∧ Calm s t ∧ (∀ b, t.buffer b = s.buffer b) ∧
      trim text = text ∧ jump.text.toList <:+: text.toList
  | .plain _ a, _, _, part, s => by
    obtain ⟨rfl, rfl⟩ : n = _ ∧ jump.action = a := by simpa [Statement.parts] using part
    exact ⟨s, jump.text, jump.perform_action s, Calm.refl s, fun _ => rfl, jump.trim_text,
      List.infix_rfl⟩
  | .inlineIf _ c thenBranch, branch, clean, part, s => by
    have calm := Calm.place thenBranch branch clean.2
    obtain ⟨t, text, placed, kept, -, whole, inside⟩ := place_jump thenBranch branch clean.2
      (by simpa [Statement.parts] using part) { s with capture := some [] }
    have within := @captured_jump s t (fun s => s.place thenBranch) text _ placed kept whole inside
    refine ⟨_, _, rfl, Calm.captured s calm, Calm.buffer_captured s calm, ?_, ?_⟩
    · exact trim_eq_self (((((begins_ofList rfl).append _).append _).append _).append _)
        ((ends_ofList rfl).after _) (by decide) (by decide)
    · exact within.trans (infix_append _ _ _)
  | .inlineIfElse _ c thenBranch elseBranch, branch, clean, part, s => by
    obtain ⟨first, second⟩ := Bool.and_eq_true_iff.1 branch
    have calm := Calm.place thenBranch first clean.2.1
    have calm' := Calm.place elseBranch second clean.2.2
    have within : jump.text.toList <:+: (s.captured fun s => s.place thenBranch).1.toList ∨
        jump.text.toList <:+: ((s.captured fun s => s.place thenBranch).2.captured
          fun s => s.place elseBranch).1.toList := by
      have either : Statement.plain n jump.action ∈ thenBranch.parts ∨
          Statement.plain n jump.action ∈ elseBranch.parts := by
        simpa [Statement.parts] using part
      rcases either with here | there
      · obtain ⟨t, text, placed, kept, -, whole, inside⟩ :=
          place_jump thenBranch first clean.2.1 here { s with capture := some [] }
        exact .inl (captured_jump placed kept whole inside)
      · obtain ⟨t, text, placed, kept, -, whole, inside⟩ := place_jump elseBranch second clean.2.2
          there { (s.captured fun s => s.place thenBranch).2 with capture := some [] }
        exact .inr (captured_jump placed kept whole inside)
    refine ⟨_, _, rfl, (Calm.captured s calm).trans (Calm.captured _ calm'),
      fun b => (Calm.buffer_captured _ calm' b).trans (Calm.buffer_captured s calm b), ?_, ?_⟩
    · exact trim_eq_self (((((((begins_ofList rfl).append _).append _).append _).append _).append
        _).append _) ((ends_ofList rfl).after _) (by decide) (by decide)
    · rcases within with here | there
      · simp only [toString_text, String.append_assoc]
        rw [← String.append_assoc, ← String.append_assoc, ← String.append_assoc]
        exact here.trans (infix_append _ _ _)
      · exact there.trans (infix_append _ _ _)

theorem staysInBody_of_isBranch : (st : Statement) → st.isBranch = true → st.staysInBody = true
  | .plain _ a, calm => by
    cases a <;> first | rfl | simp [Statement.isBranch, Action.isCalm, Action.isPlain] at calm
  | .inlineIf _ _ thenBranch, calm => staysInBody_of_isBranch thenBranch calm
  | .inlineIfElse _ _ thenBranch elseBranch, calm => by
    obtain ⟨first, second⟩ := Bool.and_eq_true_iff.1 calm
    exact Bool.and_eq_true_iff.2
      ⟨staysInBody_of_isBranch thenBranch first, staysInBody_of_isBranch elseBranch second⟩

end Sketch

/-- The statement is written by itself, and the jump is part of its line. -/
def Moment.Carries (m : Moment) (jump : Jump) (n : Nat) : Prop :=
  m.sketch.capture = none ∧ ∃ st, m.deed = .statement st ∧ st.isBranch = true ∧
    Statement.plain n jump.action ∈ st.parts

namespace Sketch

variable {jump : Jump} {n : Nat}

mutual

theorem carried_place : (st : Statement) → (p : Position) → (s : Sketch) → Fits p s →
    s.capture = none → ∀ {blocks blocks' : List Block}, st.nest blocks = some blocks' →
    Statement.plain n jump.action ∈ st.parts → ∃ m ∈ s.moments p st, m.Carries jump n
  | .plain k a, p, s, _, writing, _, _, _, part => by
    have same : n = k ∧ jump.action = a := by simpa [Statement.parts] using part
    refine ⟨_, List.mem_cons_self, writing, _, rfl, ?_, part⟩
    rw [Statement.isBranch, ← same.2]
    cases jump <;> rfl
  | .inlineIf k c thenBranch, p, s, _, writing, _, _, nest, part => by
    rw [Statement.nest, Option.ite_none_right_eq_some] at nest
    exact ⟨_, List.mem_cons_self, writing, _, rfl, nest.1, part⟩
  | .inlineIfElse k c thenBranch elseBranch, p, s, _, writing, _, _, nest, part => by
    rw [Statement.nest, Option.ite_none_right_eq_some] at nest
    exact ⟨_, List.mem_cons_self, writing, _, rfl, nest.1, part⟩
  | .every k interval body, p, s, _, writing, _, _, nest, part => by
    rw [Statement.nest, Option.ite_none_right_eq_some] at nest
    obtain ⟨scope, opened, -, capture, -⟩ := task_frame s
    have writing' : s.task.capture = none := by
      simpa [writing] using capture.trans (Calm.announce s).capture
    have inner : Statement.plain n jump.action ∈ Statement.allParts body := by
      simpa [Statement.parts] using part
    obtain ⟨m, mem, carries⟩ := carried_statements body (p.enter .procedure) s.task
      ⟨scope, by simp [scope, opened], Nat.le_refl _⟩ writing' nest.1 inner
    exact ⟨m, List.mem_cons_of_mem _ mem, carries⟩

theorem carried_statements : (sts : List Statement) → (p : Position) → (s : Sketch) → Fits p s →
    s.capture = none →
    ∀ {blocks blocks' : List Block}, Statement.nestAll blocks sts = some blocks' →
    Statement.plain n jump.action ∈ Statement.allParts sts →
    ∃ m ∈ s.allMoments p sts, m.Carries jump n
  | [], _, _, _, _, _, _, _, part => by simp [Statement.allParts] at part
  | first :: rest, p, s, fits, writing, _, _, nest, part => by
    obtain ⟨between, here, behind⟩ := Option.bind_eq_some_iff.1 nest
    rw [allMoments]
    rcases List.mem_append.1 part with inFirst | inRest
    · obtain ⟨m, mem, carries⟩ := carried_place first p (s.facing first)
        (faces_facing fits writing first).fits writing here inFirst
      exact ⟨m, List.mem_append_left _ mem, carries⟩
    · have routes := statements_finishes [first] p s fits
      obtain ⟨m, mem, carries⟩ := carried_statements rest (first.moves p) (s.statements [first])
        routes.fits (by simpa [writing] using routes.capture) behind inRest
      exact ⟨m, List.mem_append_right _ mem, carries⟩

end

theorem carried_program : (sts : List Statement) → ∀ {p : Position} {s : Sketch} {inside : Bool}
    {blocks : List Block}, nestsFrom inside blocks sts = true → Fits p s → s.capture = none →
    Statement.plain n jump.action ∈ Statement.allParts sts →
    ∃ m ∈ s.allMoments p sts, m.Carries jump n
  | [], _, _, _, _, _, _, _, part => by simp [Statement.allParts] at part
  | first :: rest, p, s, inside, blocks, nests, fits, writing, part => by
    have routes := statements_finishes [first] p s fits
    have writing' : (s.statements [first]).capture = none := by
      simpa [writing] using routes.capture
    have later {inside : Bool} {blocks : List Block} (nests : nestsFrom inside blocks rest = true)
        (part : Statement.plain n jump.action ∈ Statement.allParts rest) :
        ∃ m ∈ s.allMoments p (first :: rest), m.Carries jump n := by
      obtain ⟨m, mem, carries⟩ := carried_program rest nests routes.fits writing' part
      exact ⟨m, List.mem_append_right _ mem, carries⟩
    -- neither the header of a procedure nor its end is a jump
    have other {a : Action} (apart : jump.action ≠ a) {k : Nat}
        (part : Statement.plain n jump.action ∈ Statement.allParts (.plain k a :: rest)) :
        Statement.plain n jump.action ∈ Statement.allParts rest := by
      simpa [Statement.allParts, Statement.parts, apart] using part
    unfold nestsFrom at nests
    split at nests
    · rename_i none_left
      cases none_left
    · rename_i k h others eq
      obtain ⟨rfl, rfl⟩ := List.cons.inj eq
      simp only [Bool.and_eq_true] at nests
      exact later nests.2 (other (by cases jump <;> simp [Jump.action]) part)
    · rename_i k kind others eq
      obtain ⟨rfl, rfl⟩ := List.cons.inj eq
      simp only [Bool.and_eq_true] at nests
      exact later nests.2 (other (by cases jump <;> simp [Jump.action]) part)
    · rename_i st others _ _ eq
      obtain ⟨rfl, rfl⟩ := List.cons.inj eq
      obtain ⟨between, here, behind⟩ := (Option.any_eq_true _ _).1 nests
      rcases List.mem_append.1 part with inFirst | inRest
      · obtain ⟨m, mem, carries⟩ := carried_place first p (s.facing first)
          (faces_facing fits writing first).fits writing here inFirst
        exact ⟨m, List.mem_append_left _ mem, carries⟩
      · exact later behind inRest

end Sketch

namespace Statement

mutual

theorem Clean.part : ∀ {st : Statement}, st.Clean → ∀ part ∈ st.parts, part.Clean
  | .plain _ _, clean => List.forall_mem_singleton.2 clean
  | .inlineIf _ _ _, clean => List.forall_mem_cons.2 ⟨clean, clean.2.part⟩
  | .inlineIfElse _ _ _ _, clean =>
    List.forall_mem_cons.2 ⟨clean, List.forall_mem_append.2 ⟨clean.2.1.part, clean.2.2.part⟩⟩
  | .every _ _ _, clean => List.forall_mem_cons.2 ⟨clean, AllClean.part clean.2⟩

theorem AllClean.part : ∀ {sts : List Statement}, AllClean sts → ∀ part ∈ allParts sts, part.Clean
  | [], _ => by simp [allParts]
  | _ :: _, clean => List.forall_mem_append.2 ⟨clean.1.part, AllClean.part clean.2⟩

end

end Statement

/-- Lines with which what is written of a body begins in the end. A procedure is written again
where it is defined again. -/
def Sketch.Starts (s : Sketch) (bodies : List (Nat × Procedure)) (home : Home)
    (lines : List SketchLine) : Prop :=
  (home.scope ≠ .procedure → lines <+: s.buffer home.scope) ∧
    (home.scope = .procedure → ∃ q, (home.number, q) ∈ bodies ∧ lines <+: q.body)

/-- Where a jump leads that stands between these blocks, behind these lines of a body. -/
structure Jump.Leads (jump : Jump) (around : List Moment) (lines : List SketchLine) : Prop where
  follows : Follows around lines
  innermost : jump.left lines =
    (around.find? fun o => o.block?.any jump.names).map Moment.opening
  named : ∀ between o outer, around = between ++ o :: outer → o.block?.any jump.names = true →
    (jump.left lines = some o.opening ↔ ∀ o' ∈ between, o'.block?.any jump.names = false)

theorem Follows.leads {home : Home} {earlier : List Moment} {lines : List SketchLine}
    (follows : Follows (constructsAround home earlier) lines) (jump : Jump) :
    jump.Leads (constructsAround home earlier) lines where
  follows := follows
  innermost := left_eq follows (fun _ mem => role_of_mem_constructsAround mem) jump
  named between o outer eq named := by
    have opened : ∀ o ∈ constructsAround home earlier, ∃ block, o.role = .opens block :=
      fun _ mem => role_of_mem_constructsAround mem
    rw [eq] at follows opened
    exact left_iff follows opened named

namespace Sketch

theorem after_carries {earlier : List Moment} {m : Moment} {st : Statement} {jump : Jump} {n : Nat}
    (tracks : m.Tracks earlier) (deed : m.deed = .statement st) (writing : m.sketch.capture = none)
    (branch : st.isBranch = true) (clean : st.Clean)
    (part : Statement.plain n jump.action ∈ st.parts) :
    ∃ before depth text,
      m.after.buffer m.home.scope = before ++ [.code ⟨m.statement?, true⟩ depth text] ∧
      jump.text.toList <:+: text.toList ∧ Follows (constructsAround m.home earlier) before := by
  obtain ⟨author, landing, follows⟩ := tracks (by simp [Moment.isStatement, deed]) writing
  obtain ⟨t, text, placed, calm, same, -, inside⟩ := place_jump st branch clean part m.sketch
  have after : m.after = t.emit text := by
    simp [Moment.after, deed, staysInBody_of_isBranch st branch, placed]
  have writing' : t.capture = none := by simpa [writing] using calm.capture
  have author' : t.author = m.statement? := calm.author.trans author
  have lines : m.after.buffer m.home.scope =
      m.sketch.buffer m.home.scope ++ t.pushed true t.scope t.depth text := by
    rw [after, emit, buffer_push _ _ _ _ _ writing', same, calm.landing, calm.scope, landing,
      if_pos rfl]
  by_cases marked : t.marked.contains t.scope = true
  · refine ⟨_, t.depth, text, ?_, inside, follows⟩
    rw [lines, pushed, if_pos marked, author']
  · refine ⟨m.sketch.buffer m.home.scope ++ [.marker ⟨m.statement?, true⟩ t.depth t.line], t.depth,
      text, ?_, inside, follows.neutral (neutral_of_stays ?_)⟩
    · rw [lines, pushed, if_neg marked, author']
      simp
    · simp [bearing_marker]

theorem starts_after {options : Options} {sts : List Statement} {done : List (Nat × Procedure)}
    {p : Position} (routes : Routes .start (empty options) (momentsOf options sts) done p.leave
      (ofStatements options sts)) {m : Moment} (mem : m ∈ momentsOf options sts)
    (isStatement : m.isStatement = true) {lines : List SketchLine} (some_line : lines ≠ [])
    (written : m.after.buffer m.home.scope = lines) :
    (ofStatements options sts).Starts done m.home lines := by
  obtain ⟨plain, survives⟩ := routes.lasting m mem isStatement m.after (by simp [Moment.stages])
  refine ⟨fun outside => written ▸ plain m.home.scope outside, fun inside => ?_⟩
  rw [inside, buffer] at written
  cases opened : m.after.open? with
  | none => exact absurd (by simpa [opened] using written.symm) some_line
  | some q =>
    have here := Home.eq_procedure inside
    rcases survives m.home.number q here opened with ⟨still, -⟩ | ⟨q', mem', -, continues⟩
    · exact absurd still (by simp [Position.leave, Home.outside, Home.procedure])
    · refine ⟨q', mem', ?_⟩
      rw [opened] at written
      exact written ▸ continues

end Sketch

theorem jump_leaves_innermost_block (options : Options) {source : String}
    (nested : WellNested (Program.ofSource source).statements) (jump : Jump) :
    let sts := (Program.ofSource source).statements
    let ms := Sketch.momentsOf options sts
    let sketch := Sketch.ofStatements options sts
    (∀ line ∈ jump.lines, LineForm.ofText line.2 = .action jump.action) ∧
    (∀ n, .plain n jump.action ∈ Statement.allParts sts → ∃ m ∈ ms, m.Carries jump n) ∧
    ∃ bodies : List (Nat × Procedure),
      sketch.procedures = Procedure.latest (bodies.map Prod.snd) ∧
      ∀ earlier m later n, ms = earlier ++ m :: later → m.Carries jump n →
        ∃ before depth text,
          sketch.Starts bodies m.home (before ++ [.code ⟨m.statement?, true⟩ depth text]) ∧
          jump.text.toList <:+: text.toList ∧
          jump.Leads (constructsAround m.home earlier) before := by
  intro sts ms sketch
  have routes := Sketch.ofStatements_finished options sts
  refine ⟨jump.read_lines, fun n part => ?_, Sketch.finished options sts,
    Sketch.collected_finished, ?_⟩
  · exact Sketch.carried_program sts nested ⟨rfl, by simp [Sketch.empty], Nat.le_refl _⟩ rfl part
  · rintro earlier m later n split ⟨writing, st, deed, branch, part⟩
    have mem : m ∈ ms := by simp [split]
    have known : st ∈ Statement.allParts sts := by
      rw [← Sketch.statement?_allMoments sts (.empty options) .start]
      exact List.mem_filterMap.2 ⟨m, mem, by simp [Moment.statement?, deed]⟩
    have tracked := Sketch.tracked_moments options nested
    rw [show Sketch.momentsOf options (Program.ofSource source).statements = _ from split]
      at tracked
    obtain ⟨before, depth, text, written, inside, follows⟩ := Sketch.after_carries tracked.at deed
      writing branch (Statement.AllClean.part (clean_ofSource source) st known) part
    exact ⟨before, depth, text, Sketch.starts_after routes mem
      (by simp [Moment.isStatement, deed]) (by simp) written, inside, follows.leads jump⟩

theorem jump_leaves_innermost_block_while :
    let sts := (Program.ofSource ("Sub Loop()\nFor i = 1 To 3\nWhile b\nIf c Then\nExit While\n" ++
      "End If\nWend\nNext\nEnd Sub")).statements
    WellNested sts ∧ ∃ before depth text,
      before ++ [.code ⟨some (.plain 5 .exitLoop), true⟩ depth text] <+:
        (Sketch.ofStatements .standard sts).loop ∧
      "break;".toList <:+: text.toList ∧ Jump.exit.left before = some (3, .whileLoop) := by
  intro sts
  have read : sts = _ := Program.statements_ofSource (by decide +kernel)
  have nested : WellNested sts := by
    rw [read]
    decide +kernel
  have stands : ∃ earlier m later, Sketch.momentsOf .standard sts = earlier ++ m :: later ∧
      m.plain? = some (5, .exitLoop) ∧
      m.home.scope = .loop ∧ m.sketch.capture = none ∧
      ((constructsAround m.home earlier).find? fun o => o.block?.any Jump.exit.names).map
        Moment.opening = some (3, .whileLoop) := by
    rw [read]
    exact Sketch.exists_moment 4 (by decide +kernel)
  obtain ⟨earlier, m, later, split, exits, home, writing, innermost⟩ := stands
  have deed := Moment.deed_of_plain? exits
  have known : m.statement? = some (.plain 5 .exitLoop) := by rw [Moment.statement?, deed]
  obtain ⟨-, -, bodies, -, jumps⟩ := jump_leaves_innermost_block .standard nested .exit
  obtain ⟨before, depth, text, starts, inside, leads⟩ := jumps earlier m later 5 split
    ⟨writing, _, deed, rfl, by simp [Statement.parts, Jump.action]⟩
  rw [known] at starts
  refine ⟨nested, before, depth, text, ?_, inside, leads.innermost.trans innermost⟩
  have written := starts.1 (by simp [home])
  rw [home] at written
  exact written

theorem jumps_of_inner_blocks :
    let exits := (Program.ofSource ("Sub Loop()\nFor i = 1 To 3\nSelect Case x\nCase 1\n" ++
      "Exit For\nEnd Select\nNext\nEnd Sub")).statements
    let continues := (Program.ofSource ("Sub Loop()\nFor i = 1 To 3\nWhile b\n" ++
      "Continue For\nWend\nNext\nEnd Sub")).statements
    let exitLines := (Sketch.ofStatements .standard exits).loop
    let continueLines := (Sketch.ofStatements .standard continues).loop
    LineForm.ofText "Exit For" = .action Jump.exit.action ∧
    LineForm.ofText "Continue For" = .action Jump.next.action ∧
    WellNested exits ∧ WellNested continues ∧
    exitLines[7]?.map SketchLine.render = some "            break;" ∧
    enclosing (exitLines.take 7) = [(3, .switch), (1, .forLoop)] ∧
    Jump.exit.left (exitLines.take 7) = some (3, .switch) ∧
    continueLines[5]?.map SketchLine.render = some "            continue;" ∧
    enclosing (continueLines.take 5) = [(3, .whileLoop), (1, .forLoop)] ∧
    Jump.next.left (continueLines.take 5) = some (3, .whileLoop) := by
  intro exits continues exitLines continueLines
  have readExits : exits = _ := Program.statements_ofSource (by decide +kernel)
  have readContinues : continues = _ := Program.statements_ofSource (by decide +kernel)
  refine ⟨Jump.read_lines .exit (.counted, _) (by simp [Jump.lines]),
    Jump.read_lines .next (.counted, _) (by simp [Jump.lines]), ?_⟩
  simp only [exitLines, continueLines, readExits, readContinues]
  decide +kernel

end BasicSketch
