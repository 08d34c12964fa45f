import BasicSketch.Proofs.InPlace

set_option autoImplicit false

/-! Block discipline. -/

namespace BasicSketch

theorem Block.eq_branch_of_sameKind {block : Block} (same : block.sameKind .branch = true) :
    block = .branch := by
  cases block <;> first | rfl | simp [sameKind] at same

theorem Block.eq_select_of_sameKind {block : Block} (same : block.sameKind (.select false) = true) :
    ∃ inCase, block = .select inCase := by
  cases block <;> first | exact ⟨_, rfl⟩ | simp [sameKind] at same

variable {c : Char} {cs : List Char} {text : String} {a : Action}

def IsLabel (text : String) : Prop :=
  text = "default:" ∨ (∃ rest, text = "case " ++ rest) ∨ ∃ rest, text = "// Case Is " ++ rest

theorem IsLabel.not_begins (label : IsLabel text) : ¬ Begins 'b' text := by
  intro begins
  have other : ∃ c, Begins c text ∧ c ≠ 'b' := by
    rcases label with eq | ⟨rest, eq⟩ | ⟨rest, eq⟩ <;> rw [eq]
    · exact ⟨_, begins_ofList rfl, by decide⟩
    · exact ⟨_, (begins_ofList rfl).append rest, by decide⟩
    · exact ⟨_, (begins_ofList rfl).append rest, by decide⟩
  obtain ⟨c, begins', ne⟩ := other
  exact ne (Option.some.inj (begins'.symm.trans begins))

def Role.isBracket : Role → Bool
  | .opens _ | .closes _ => true
  | .inside | .divides _ => false

def Role.Shows : Role → String → Prop
  | .inside, _ => True
  | .opens _, text => Ends '\x7b' text
  | .closes _, text => Begins '\x7d' text
  | .divides .branch, text => Begins '\x7d' text ∧ Ends '\x7b' text
  | .divides _, text => IsLabel text

theorem Role.Shows.stays {role : Role} (shows : role.Shows text) (apart : role ≠ .inside) :
    text ≠ "break;" := by
  intro eq
  rw [eq] at shows
  cases role with
  | inside => exact apart rfl
  | opens block => simp [Shows, Ends] at shows
  | closes block => simp [Shows, Begins] at shows
  | divides block =>
    cases block with
    | branch => simp [Shows, Begins] at shows
    | _ => exact shows.not_begins (begins_ofList rfl)

/-- The blocks that are open after a line of this depth, each with the depth of its first line. -/
def Role.track (role : Role) (depth : Nat) (stack : List (Block × Nat)) :
    Option (List (Block × Nat)) :=
  match role with
  | .inside => some stack
  | .opens block => some ((block, depth) :: stack)
  | .divides block => if stack.head? = some (block, depth) then some stack else none
  | .closes block => if stack.head? = some (block, depth) then some stack.tail else none

def Statement.role : Statement → Role
  | .plain _ a => a.role
  | _ => .inside

def Statement.brackets (sts : List Statement) : List Role :=
  (sts.map Statement.role).filter Role.isBracket

theorem Statement.brackets_opens {block : Block} (role : a.role = .opens block) (n : Nat)
    (rest : List Statement) : brackets (.plain n a :: rest) = [.opens block] ++ brackets rest := by
  rw [brackets, List.map_cons, Statement.role, role]
  rfl

theorem Statement.brackets_closes {block : Block} (role : a.role = .closes block) (n : Nat) :
    brackets [.plain n a] = [.closes block] := by
  rw [brackets, List.map_cons, Statement.role, role]
  rfl

theorem Statement.brackets_other {st : Statement} (other : st.role.isBracket = false)
    (rest : List Statement) : brackets (st :: rest) = brackets rest := by
  simp [brackets, other]

theorem Statement.brackets_append (sts more : List Statement) :
    brackets (sts ++ more) = brackets sts ++ brackets more := by
  simp [brackets]

namespace SketchLine

/-- A line that a statement writes in place has the role of the statement. -/
def role : SketchLine → Role
  | .code ⟨some st, _⟩ _ text => if text = "break;" then .inside else st.role
  | _ => .inside

def track (stack : List (Block × Nat)) (line : SketchLine) : Option (List (Block × Nat)) :=
  line.role.track line.depth stack

def follow (stack : List (Block × Nat)) (lines : List SketchLine) :
    Option (List (Block × Nat)) :=
  lines.foldlM track stack

theorem follow_append (stack : List (Block × Nat)) (ls more : List SketchLine) :
    follow stack (ls ++ more) = (follow stack ls).bind (follow · more) :=
  List.foldlM_append

variable {ls : List SketchLine}

theorem follow_inside (inside : ∀ l ∈ ls, l.role = .inside) (stack : List (Block × Nat)) :
    follow stack ls = some stack := by
  induction ls with
  | nil => rfl
  | cons l rest ih =>
    rw [follow, List.foldlM_cons, track, inside l List.mem_cons_self, Role.track]
    exact ih fun l mem => inside l (List.mem_cons_of_mem _ mem)

def Shown : SketchLine → Prop
  | .marker .. => True
  | .code origin depth text => (role (.code origin depth text)).Shows text

theorem shown_of_inside {l : SketchLine} (inside : l.role = .inside) : l.Shown := by
  cases l with
  | marker => trivial
  | code origin depth text =>
    rw [Shown, inside]
    trivial

def brackets (ls : List SketchLine) : List Role := (ls.map role).filter Role.isBracket

theorem brackets_append (ls more : List SketchLine) :
    brackets (ls ++ more) = brackets ls ++ brackets more := by
  simp [brackets]

theorem brackets_inside (inside : ∀ l ∈ ls, l.role = .inside) : brackets ls = [] := by
  rw [brackets, List.filter_eq_nil_iff]
  intro role mem
  obtain ⟨l, here, rfl⟩ := List.mem_map.1 mem
  simp [inside l here, Role.isBracket]

end SketchLine

inductive Action.Pairs : Action → Action → Prop
  | forLoop (counter : String) (start stop : Expr) (step : Option Expr) :
    Pairs (.forLoop counter start stop step) .next
  | forEach (counter : String) (collection : Expr) : Pairs (.forEach counter collection) .next
  | whileLoop (c : Expr) : Pairs (.whileLoop c) .wend
  | doLoop (test test' : LoopTest) : Pairs (.doLoop test) (.loopEnd test')
  | record (name : String) : Pairs (.typeStart name) .typeEnd
  | enumeration (name : String) : Pairs (.enumStart name) .enumEnd

theorem Action.Pairs.roles {opener closer : Action} (pairs : opener.Pairs closer) :
    ∃ block, opener.role = .opens block ∧ closer.role = .closes block ∧ closer ≠ .endSelect := by
  cases pairs <;> exact ⟨_, rfl, rfl, by simp⟩

namespace Sketch

open SketchLine Text

/-- Lines are written in place that lead from the open blocks `before` to `after`, none of them
less deep than `low`; `roles` are those that open or close a block. -/
def Brackets (s s' : Sketch) (before after : List (Block × Nat)) (low : Nat)
    (roles : List Role) : Prop :=
  ∃ own, Grows own s s' ∧ (∀ stack, follow (before ++ stack) own = some (after ++ stack)) ∧
    (∀ l ∈ own, low ≤ l.depth) ∧ (∀ l ∈ own, l.Shown) ∧ brackets own = roles

namespace Brackets

variable {s s' s'' : Sketch} {before between after : List (Block × Nat)} {low : Nat}
  {roles roles' : List Role}

theorem trans (first : Brackets s s' before between low roles)
    (second : Brackets s' s'' between after low roles') :
    Brackets s s'' before after low (roles ++ roles') := by
  obtain ⟨own, grows, follows, deep, shown, same⟩ := first
  obtain ⟨own', grows', follows', deep', shown', same'⟩ := second
  refine ⟨own ++ own', grows.trans grows', fun stack => ?_, fun l mem => ?_, fun l mem => ?_, ?_⟩
  · rw [follow_append, follows]
    exact follows' stack
  · exact (List.mem_append.1 mem).elim (deep l) (deep' l)
  · exact (List.mem_append.1 mem).elim (shown l) (shown' l)
  · rw [brackets_append, same, same']

theorem scope (brackets : Brackets s s' before after low roles) : s'.scope = s.scope := by
  obtain ⟨own, grows, -⟩ := brackets
  exact grows.scope

theorem author (brackets : Brackets s s' before after low roles) : s'.author = s.author := by
  obtain ⟨own, grows, -⟩ := brackets
  exact grows.author

theorem mono {high : Nat} (lower : low ≤ high) (brackets : Brackets s s' before after high roles) :
    Brackets s s' before after low roles := by
  obtain ⟨own, grows, follows, deep, rest⟩ := brackets
  exact ⟨own, grows, follows, fun l mem => Nat.le_trans lower (deep l mem), rest⟩

theorem under (outer : List (Block × Nat)) (brackets : Brackets s s' before after low roles) :
    Brackets s s' (before ++ outer) (after ++ outer) low roles := by
  obtain ⟨own, grows, follows, rest⟩ := brackets
  refine ⟨own, grows, fun stack => ?_, rest⟩
  rw [List.append_assoc, List.append_assoc]
  exact follows (outer ++ stack)

theorem inside {own : List SketchLine} (grows : Grows own s s')
    (roles : ∀ l ∈ own, l.role = .inside) (deep : ∀ l ∈ own, low ≤ l.depth)
    (stack : List (Block × Nat)) : Brackets s s' stack stack low [] :=
  ⟨own, grows, fun _ => follow_inside roles _, deep, fun l mem => shown_of_inside (roles l mem),
    brackets_inside roles⟩

theorem unwritten (grows : Grows [] s s') (stack : List (Block × Nat)) (low : Nat) :
    Brackets s s' stack stack low [] :=
  inside grows (by simp) (by simp) stack

end Brackets

section Line

variable {s : Sketch} {st : Statement}

theorem role_pushed (author : s.author = some st) {depth : Nat}
    (inside : text = "break;" ∨ st.role = .inside) :
    ∀ l ∈ s.pushed true s.scope depth text, l.role = .inside := by
  intro l mem
  have code : (SketchLine.code ⟨s.author, true⟩ depth text).role = .inside := by
    rw [author]
    simp only [SketchLine.role]
    split
    · rfl
    · exact inside.resolve_left ‹_›
  unfold pushed at mem
  split at mem
  · rw [List.mem_singleton.1 mem]
    exact code
  · simp only [List.mem_cons, List.not_mem_nil, or_false] at mem
    rcases mem with rfl | rfl
    · rfl
    · exact code

theorem role_of_author {l : SketchLine} (author : l.origin.author = some st)
    (inside : st.role = .inside) : l.role = .inside := by
  cases l with
  | marker => rfl
  | code origin depth text =>
    obtain ⟨other, place⟩ := origin
    obtain rfl : other = some st := author
    simp only [SketchLine.role, inside, ite_self]

theorem Brackets.line (author : s.author = some st) {role : Role} (same : st.role = role)
    (apart : role ≠ .inside) {text : String} (shows : role.Shows text) (depth : Nat)
    {before after : List (Block × Nat)}
    (tracks : ∀ stack, role.track depth (before ++ stack) = some (after ++ stack)) :
    Brackets s (s.push true s.scope depth text) before after depth
      ([role].filter Role.isBracket) := by
  have marker : (SketchLine.marker ⟨some st, true⟩ depth s.line).role = .inside := rfl
  have code : (SketchLine.code ⟨some st, true⟩ depth text).role = role := by
    simp [SketchLine.role, shows.stays apart, same]
  have shown : (SketchLine.code ⟨some st, true⟩ depth text).Shown := by
    rw [Shown, code]
    exact shows
  have tracked (stack : List (Block × Nat)) :
      track (before ++ stack) (.code ⟨some st, true⟩ depth text) = some (after ++ stack) := by
    rw [track, code]
    exact tracks stack
  refine ⟨_, Grows.inPlace s depth text, fun stack => ?_, fun l mem => ?_, fun l mem => ?_, ?_⟩
  · rw [pushed, author]
    split
    · simp [follow, tracked]
    · have skipped : track (before ++ stack) (.marker ⟨some st, true⟩ depth s.line) =
          some (before ++ stack) := rfl
      simp [follow, skipped, tracked]
  · exact Nat.le_of_eq (origin_pushed l mem).2.symm
  · rw [pushed, author] at mem
    split at mem
    · rw [List.mem_singleton.1 mem]
      exact shown
    · rcases List.mem_cons.1 mem with here | later
      · rw [here]
        exact shown_of_inside marker
      · rw [List.mem_singleton.1 later]
        exact shown
  · rw [pushed, author]
    split
    · simp [brackets, code]
    · simp [brackets, code, marker, Role.isBracket]

end Line

end Sketch

inductive Part where
  | single
  | sequence
  | branches
  | cases
  deriving DecidableEq, Repr

inductive Nested : Part → List Statement → Prop
  | plain (n : Nat) {a : Action} (plain : a.isPlain = true) : Nested .single [.plain n a]
  | inlineIf (n : Nat) (c : Expr) {st : Statement} (thenBranch : Nested .single [st]) :
    Nested .single [.inlineIf n c st]
  | inlineIfElse (n : Nat) (c : Expr) {st st' : Statement} (thenBranch : Nested .single [st])
    (elseBranch : Nested .single [st']) : Nested .single [.inlineIfElse n c st st']
  | every (n : Nat) (interval : Expr) {body : List Statement} (within : Nested .sequence body) :
    Nested .single [.every n interval body]
  | nil : Nested .sequence []
  | one {st : Statement} (single : Nested .single [st]) : Nested .sequence [st]
  | append {sts more : List Statement} (first : Nested .sequence sts)
    (second : Nested .sequence more) : Nested .sequence (sts ++ more)
  | block (n m : Nat) {opener closer : Action} {body : List Statement}
    (pairs : opener.Pairs closer) (within : Nested .sequence body) :
    Nested .sequence (.plain n opener :: (body ++ [.plain m closer]))
  | ifBlock (n : Nat) (c : Expr) {body rest : List Statement} (within : Nested .sequence body)
    (after : Nested .branches rest) : Nested .sequence (.plain n (.ifBlock c) :: (body ++ rest))
  | endIf (n : Nat) : Nested .branches [.plain n .endIf]
  | elseBlock (n m : Nat) {body : List Statement} (within : Nested .sequence body) :
    Nested .branches (.plain n .elseBlock :: (body ++ [.plain m .endIf]))
  | elseIf (n : Nat) (c : Expr) {body rest : List Statement} (within : Nested .sequence body)
    (after : Nested .branches rest) : Nested .branches (.plain n (.elseIf c) :: (body ++ rest))
  | select (n : Nat) (subject : Expr) {rest : List Statement} (after : Nested .cases rest) :
    Nested .sequence (.plain n (.select subject) :: rest)
  | endSelect (n : Nat) : Nested .cases [.plain n .endSelect]
  | caseOf (n : Nat) (values : List CaseValue) {body rest : List Statement}
    (within : Nested .sequence body) (after : Nested .cases rest) :
    Nested .cases (.plain n (.caseOf values) :: (body ++ rest))
  | caseElse (n : Nat) {body rest : List Statement} (within : Nested .sequence body)
    (after : Nested .cases rest) : Nested .cases (.plain n .caseElse :: (body ++ rest))

namespace Sketch

open SketchLine Text

variable {below : List Block} {s : Sketch} {top : Block}

theorem Closed.grows {block : Block} {rest : List Block} {events : List Event}
    (closed : s.Closed block rest events) (blocks : s.blocks = top :: below)
    (same : top.sameKind block = true) :
    rest = below ∧ Grows [] s { s with blocks := rest, events } := by
  obtain ⟨left, quiet⟩ := closed top below blocks same
  exact ⟨left, .of_eq (fun b => by cases b <;> rfl) rfl rfl rfl rfl quiet⟩

theorem isLabel_case (rest : String) : IsLabel ("case " ++ rest) := Or.inr (Or.inl ⟨rest, rfl⟩)

theorem isLabel_caseLabel (s : Sketch) (value : CaseValue) :
    ∀ text ∈ s.caseLabels value, IsLabel text := by
  intro text mem
  have label := mem_caseLabels mem
  cases value with
  | value v =>
    rw [label, toString_text, String.append_assoc]
    exact isLabel_case _
  | range low high =>
    rcases label with ⟨n, rfl⟩ | rfl
    all_goals
      simp only [toString_text, String.append_assoc]
      exact isLabel_case _
  | comparison operator v =>
    rw [label]
    simp only [toString_text, String.append_assoc]
    exact Or.inr (Or.inr ⟨_, rfl⟩)

theorem perform_case (role : a.role = .divides (.select false)) (s : Sketch) :
    ∃ labels : List String, s.perform a = labels.foldl emitOutdented s.enterCase ∧
      ∀ text ∈ labels, IsLabel text := by
  cases a with
  | caseElse =>
    have label : IsLabel "default:" := Or.inl rfl
    exact ⟨["default:"], rfl, by simpa using label⟩
  | caseOf values =>
    refine ⟨_, rfl, fun text mem => ?_⟩
    obtain ⟨v, -, label⟩ := List.mem_flatMap.1 mem
    exact isLabel_caseLabel s v text label
  | _ => cases role

section Statements

variable {st : Statement}

theorem statements_append (s : Sketch) (sts more : List Statement) :
    s.statements (sts ++ more) = (s.statements sts).statements more := by
  induction sts generalizing s with
  | nil => rfl
  | cons first rest ih => simp only [List.cons_append, statements, ih]

theorem statements_cons (s : Sketch) (st : Statement) (rest : List Statement) :
    s.statements (st :: rest) = (s.statements [st]).statements rest :=
  statements_append s [st] rest

def facing (s : Sketch) (st : Statement) : Sketch := { s with author := some st }.start st.line

variable {low : Nat} {t : Sketch} {inCase : Bool} {body rest : List Statement}

theorem Brackets.statement {before after : List (Block × Nat)} {roles : List Role}
    (placed : Brackets (s.facing st) ((s.facing st).place st) before after low roles) :
    Brackets s (s.statements [st]) before after low roles := by
  obtain ⟨own, grows, rest⟩ := placed
  refine ⟨own, ⟨grows.scope, grows.opened, rfl, grows.capture, grows.quiet, fun b => ?_⟩, rest⟩
  have written := grows.buffers b
  cases b <;> exact written

theorem blocks_statement (s : Sketch) (st : Statement) :
    (s.statements [st]).blocks = ((s.facing st).place st).blocks := rfl

theorem depth_below (blocks : s.blocks = top :: below) (blocks' : t.blocks = below)
    (scope : t.scope = s.scope) : s.depth = t.depth + 1 := by
  rw [depth, depth, scope, blocks, blocks', List.length_cons]
  cases s.scope <;> dsimp only <;> omega

theorem depth_case {top' : Block} (blocks : s.blocks = top :: below)
    (blocks' : t.blocks = top' :: below) (scope : t.scope = s.scope) : t.depth = s.depth := by
  rw [depth, depth, scope, blocks, blocks']
  rfl

theorem Brackets.opener (n : Nat) {block : Block} (role : a.role = .opens block) (s : Sketch) :
    ∃ top, top.sameKind block = true ∧
      (s.statements [.plain n a]).blocks = top :: s.blocks ∧
      Brackets s (s.statements [.plain n a]) [] [(block, s.depth)] s.depth [.opens block] := by
  obtain ⟨text, top, eq, same, -, -, ends⟩ := perform_opens role (s.facing (.plain n a))
  have place : (s.facing (.plain n a)).place (.plain n a) = _ := eq
  refine ⟨top, same, ?_, Brackets.statement ?_⟩
  · rw [blocks_statement, place]
    simp [openBlock, emit, facing, start]
  · rw [place]
    have line : Brackets _ ((s.facing (.plain n a)).emit text) [] [(block, s.depth)] s.depth _ :=
      @Brackets.line _ (.plain n a) rfl _ role (by simp) text ends s.depth _ _ fun stack => rfl
    exact line.trans (Brackets.unwritten (Grows.openBlock _ top) _ _)

theorem Brackets.closing {s : Sketch} (author : s.author = some st) {block : Block}
    (role : st.role = .closes block) {text : String} (begins : Begins '\x7d' text) :
    Brackets s (s.emit text) [(block, s.depth)] [] s.depth [.closes block] :=
  Brackets.line author role (by simp) begins s.depth fun stack => by simp [Role.track]

theorem Brackets.dividing {s : Sketch} (author : s.author = some st) {block : Block}
    (role : st.role = .divides block) {text : String} (shows : (Role.divides block).Shows text) :
    Brackets s (s.emitOutdented text) [(block, s.depth - 1)] [(block, s.depth - 1)]
      (s.depth - 1) [] :=
  Brackets.line author role (by simp) shows (s.depth - 1) fun stack => by simp [Role.track]

theorem Brackets.closer (n : Nat) {block : Block} (role : a.role = .closes block)
    (undivided : a ≠ .endSelect) (blocks : s.blocks = top :: below)
    (same : top.sameKind block = true) :
    (s.statements [.plain n a]).blocks = below ∧
      Brackets s (s.statements [.plain n a]) [(block, s.depth - 1)] [] (s.depth - 1)
        [.closes block] := by
  obtain ⟨rest, events, text, eq, closed, -, begins, -⟩ :=
    perform_closes role undivided (s.facing (.plain n a))
  obtain ⟨rfl, grows⟩ := closed.grows blocks same
  generalize left : ({ s.facing (.plain n a) with blocks := rest, events } : Sketch) = t at eq grows
  have place : (s.facing (.plain n a)).place (.plain n a) = _ := eq
  have deeper : s.depth = t.depth + 1 := depth_below blocks (by rw [← left]) grows.scope
  have closing : Brackets t (t.emit text) [(block, t.depth)] [] t.depth [.closes block] :=
    @Brackets.closing (.plain n a) t grows.author block role text begins
  refine ⟨?_, Brackets.statement ?_⟩
  · rw [blocks_statement, place]
    simp [emit, ← left]
  · rw [place, deeper, Nat.add_sub_cancel]
    exact (Brackets.unwritten grows _ _).trans closing

theorem Brackets.divider (n : Nat) (role : a.role = .divides .branch) (s : Sketch) :
    (s.statements [.plain n a]).blocks = s.blocks ∧
      Brackets s (s.statements [.plain n a]) [(.branch, s.depth - 1)] [(.branch, s.depth - 1)]
        (s.depth - 1) [] := by
  obtain ⟨text, eq, -, shows⟩ := perform_divides role (s.facing (.plain n a))
  have place : (s.facing (.plain n a)).place (.plain n a) = _ := eq
  refine ⟨?_, Brackets.statement ?_⟩
  · rw [blocks_statement, place]
    simp [emitOutdented, facing, start]
  · rw [place]
    exact @Brackets.dividing (.plain n a) (s.facing (.plain n a)) rfl .branch role text shows

theorem Brackets.leaves {s : Sketch} (author : s.author = some st) (stack : List (Block × Nat)) :
    Brackets s (s.emit "break;") stack stack s.depth [] :=
  Brackets.inside (Grows.inPlace s s.depth "break;") (role_pushed author (Or.inl rfl))
    (fun l mem => Nat.le_of_eq (origin_pushed l mem).2.symm) stack

theorem Brackets.enterCase {s : Sketch} (author : s.author = some st) {inCase : Bool}
    {below : List Block} (blocks : s.blocks = .select inCase :: below)
    (stack : List (Block × Nat)) :
    s.enterCase.blocks = .select true :: below ∧ Brackets s s.enterCase stack stack s.depth [] := by
  have entered : Brackets s { s with blocks := .select true :: below } stack stack s.depth [] :=
    Brackets.unwritten (Grows.blocks s _) stack _
  have depth : { s with blocks := .select true :: below }.depth = s.depth := by
    simp [Sketch.depth, blocks]
  rw [enterCase_inside blocks]
  cases inCase with
  | false => exact ⟨rfl, entered⟩
  | true =>
    have left := @Brackets.leaves st { s with blocks := .select true :: below } author stack
    rw [depth] at left
    exact ⟨by simp [emit], entered.trans left⟩

theorem Brackets.labels {s : Sketch} (author : s.author = some st) {block : Block}
    (role : st.role = .divides block) {labels : List String}
    (shows : ∀ text ∈ labels, (Role.divides block).Shows text) :
    (labels.foldl emitOutdented s).blocks = s.blocks ∧
      Brackets s (labels.foldl emitOutdented s) [(block, s.depth - 1)] [(block, s.depth - 1)]
        (s.depth - 1) [] := by
  induction labels generalizing s with
  | nil => exact ⟨rfl, Brackets.unwritten (Grows.refl s) _ _⟩
  | cons text rest ih =>
    have first := Brackets.dividing author role (shows text List.mem_cons_self)
    have depth : (s.emitOutdented text).depth = s.depth := by
      simp [Sketch.depth, emitOutdented]
    obtain ⟨blocks, more⟩ := @ih (s.emitOutdented text) (by simpa [emitOutdented] using author)
      fun text mem => shows text (List.mem_cons_of_mem _ mem)
    rw [depth] at more
    exact ⟨blocks.trans (by simp [emitOutdented]), first.trans more⟩

theorem Brackets.case (n : Nat) (role : a.role = .divides (.select false))
    (blocks : s.blocks = .select inCase :: below) :
    (s.statements [.plain n a]).blocks = .select true :: below ∧
      Brackets s (s.statements [.plain n a]) [(.select false, s.depth - 1)]
        [(.select false, s.depth - 1)] (s.depth - 1) [] := by
  obtain ⟨labels, eq, shows⟩ := perform_case role (s.facing (.plain n a))
  have place : (s.facing (.plain n a)).place (.plain n a) = _ := eq
  obtain ⟨entered, brackets⟩ := @Brackets.enterCase (.plain n a) (s.facing (.plain n a)) rfl
    inCase below blocks [(.select false, s.depth - 1)]
  have depth : (s.facing (.plain n a)).enterCase.depth = s.depth :=
    depth_case blocks entered brackets.scope
  obtain ⟨kept, labelled⟩ :=
    @Brackets.labels (.plain n a) _ (brackets.author.trans rfl) _ role _ shows
  rw [depth] at labelled
  refine ⟨?_, Brackets.statement ?_⟩
  · rw [blocks_statement, place, kept, entered]
  · rw [place]
    exact (brackets.mono (Nat.sub_le _ 1)).trans labelled

theorem Brackets.endSelect (n : Nat) (blocks : s.blocks = .select inCase :: below) :
    (s.statements [.plain n .endSelect]).blocks = below ∧
      Brackets s (s.statements [.plain n .endSelect]) [(.select false, s.depth - 1)] []
        (s.depth - 1) [.closes (.select false)] := by
  generalize facing : s.facing (.plain n .endSelect) = f
  have author : f.author = some (.plain n .endSelect) := by rw [← facing]; rfl
  have open_ : f.blocks = .select inCase :: below := by rw [← facing]; exact blocks
  have depth : f.depth = s.depth := by rw [← facing]; rfl
  -- The last case is left, if there is one.
  have left : ∃ t, (if f.blocks.head? == some (.select true) then f.emit "break;" else f) = t ∧
      t.blocks = f.blocks ∧ ∀ stack, Brackets f t stack stack f.depth [] := by
    split
    · exact ⟨_, rfl, by simp [emit], Brackets.leaves author⟩
    · exact ⟨_, rfl, rfl, fun stack => Brackets.unwritten (Grows.refl f) stack _⟩
  obtain ⟨t, eq, kept, brackets⟩ := left
  obtain ⟨rest, events, closing, closed⟩ := closeBlock_eq t (.select false) "\x7d"
  obtain ⟨rfl, grows⟩ := closed.grows (kept.trans open_) rfl
  generalize ended : ({ t with blocks := rest, events } : Sketch) = u at closing grows
  have place : f.place (.plain n .endSelect) = u.emit "\x7d" := by
    rw [← closing, ← eq]
    rfl
  have deeper : s.depth = u.depth + 1 := by
    rw [← depth]
    exact depth_below open_ (by rw [← ended]) (grows.scope.trans (brackets []).scope)
  have last := @Brackets.closing (.plain n .endSelect) u
    (grows.author.trans ((brackets []).author.trans author)) (.select false) rfl "\x7d"
    (begins_ofList rfl)
  refine ⟨?_, Brackets.statement ?_⟩
  · rw [blocks_statement, facing, place]
    simp [emit, ← ended]
  · rw [facing, place]
    have begun := (brackets [(.select false, s.depth - 1)]).mono
      (show s.depth - 1 ≤ f.depth by omega)
    rw [deeper, Nat.add_sub_cancel] at *
    exact (begun.trans (Brackets.unwritten grows _ _)).trans last

/-- The statements end a block that is open, and all their lines are within it. -/
def Completes (s : Sketch) (block : Block) (below : List Block) (depth : Nat)
    (sts : List Statement) : Prop :=
  (s.statements sts).blocks = below ∧
    Brackets s (s.statements sts) [(block, depth)] [] depth (Statement.brackets sts)

def Disciplined : Part → List Statement → Prop
  | .single, sts => ∀ st ∈ sts, st.role = .inside ∧
    ∀ s : Sketch, ∃ own, Grows own s (s.place st) ∧ (s.place st).blocks = s.blocks ∧ s.Level own
  | .sequence, sts => ∀ s : Sketch, (s.statements sts).blocks = s.blocks ∧
    Brackets s (s.statements sts) [] [] s.depth (Statement.brackets sts)
  | .branches, sts => ∀ (s : Sketch) (below : List Block), s.blocks = .branch :: below →
    s.Completes .branch below (s.depth - 1) sts
  | .cases, sts => ∀ (s : Sketch) (inCase : Bool) (below : List Block),
    s.blocks = .select inCase :: below → s.Completes (.select false) below (s.depth - 1) sts

variable {sts : List Statement}

theorem Disciplined.stays (disciplined : Disciplined .sequence sts) :
    Stays fun s => s.statements sts := by
  intro s
  obtain ⟨blocks, own, grows, -⟩ := disciplined s
  exact ⟨own, grows, blocks⟩

theorem Disciplined.place_stays {st : Statement} (disciplined : Disciplined .single [st]) :
    Stays fun s => s.place st := by
  intro s
  obtain ⟨own, grows, blocks, -⟩ := (disciplined st List.mem_cons_self).2 s
  exact ⟨own, grows, blocks⟩

theorem Disciplined.under (disciplined : Disciplined .sequence sts) (s : Sketch)
    (outer : List (Block × Nat)) (lower : low ≤ s.depth) :
    (s.statements sts).blocks = s.blocks ∧ (s.statements sts).depth = s.depth ∧
      Brackets s (s.statements sts) outer outer low (Statement.brackets sts) := by
  obtain ⟨blocks, brackets⟩ := disciplined s
  exact ⟨blocks, depth_eq blocks brackets.scope, (brackets.under outer).mono lower⟩

theorem Disciplined.block (n m : Nat) {opener closer : Action} (pairs : opener.Pairs closer)
    (within : Disciplined .sequence body) :
    Disciplined .sequence (.plain n opener :: (body ++ [.plain m closer])) := by
  intro s
  obtain ⟨block, opens, closes, undivided⟩ := pairs.roles
  obtain ⟨top, same, blocks₁, first⟩ := Brackets.opener n opens s
  have deeper := depth_below blocks₁ rfl first.scope.symm
  obtain ⟨blocks₂, depth₂, second⟩ := within.under (s.statements [.plain n opener])
    [(block, s.depth)] (show s.depth ≤ _ by omega)
  obtain ⟨blocks₃, third⟩ := Brackets.closer m closes undivided (blocks₂.trans blocks₁) same
  rw [depth₂, deeper, Nat.add_sub_cancel] at third
  rw [statements_cons, statements_append, Statement.brackets_opens opens,
    Statement.brackets_append, Statement.brackets_closes closes]
  exact ⟨blocks₃, first.trans (second.trans third)⟩

theorem Disciplined.divided (n : Nat) {opener : Action} {block : Block}
    (opens : opener.role = .opens block)
    (after : ∀ (s : Sketch) (top : Block) (below : List Block), top.sameKind block = true →
      s.blocks = top :: below → s.Completes block below (s.depth - 1) rest) :
    Disciplined .sequence (.plain n opener :: rest) := by
  intro s
  obtain ⟨top, same, blocks₁, first⟩ := Brackets.opener n opens s
  have deeper := depth_below blocks₁ rfl first.scope.symm
  obtain ⟨blocks₂, second⟩ := after _ top s.blocks same blocks₁
  rw [deeper, Nat.add_sub_cancel] at second
  rw [statements_cons, Statement.brackets_opens opens]
  exact ⟨blocks₂, first.trans second⟩

theorem Disciplined.then {body rest : List Statement} (within : Disciplined .sequence body)
    {s : Sketch} {block : Block} {below : List Block}
    (after : ∀ t : Sketch, t.blocks = s.blocks → t.depth = s.depth →
      t.Completes block below (s.depth - 1) rest) :
    s.Completes block below (s.depth - 1) (body ++ rest) := by
  obtain ⟨blocks₁, depth₁, first⟩ :=
    within.under s [(block, s.depth - 1)] (show s.depth - 1 ≤ s.depth by omega)
  obtain ⟨blocks₂, second⟩ := after (s.statements body) blocks₁ depth₁
  rw [Completes, statements_append, Statement.brackets_append]
  exact ⟨blocks₂, first.trans second⟩

theorem Brackets.arm {n : Nat} {block : Block} (role : a.role = .divides block)
    (first : Brackets s (s.statements [.plain n a]) [(block, s.depth - 1)]
      [(block, s.depth - 1)] (s.depth - 1) [])
    (depth : (s.statements [.plain n a]).depth = s.depth) (within : Disciplined .sequence body)
    (after : ∀ t : Sketch, t.blocks = (s.statements [.plain n a]).blocks → t.depth = s.depth →
      t.Completes block below (s.depth - 1) rest) :
    s.Completes block below (s.depth - 1) (.plain n a :: (body ++ rest)) := by
  have other : (Statement.plain n a).role.isBracket = false := by
    rw [Statement.role, role]
    rfl
  obtain ⟨blocks, second⟩ := @Disciplined.then body rest within (s.statements [.plain n a]) block
    below fun t same deep => by
      rw [depth] at deep ⊢
      exact after t same deep
  rw [depth] at second
  rw [Completes, statements_cons, Statement.brackets_other other]
  exact ⟨blocks, first.trans second⟩

theorem nested_disciplined {part : Part} (nested : Nested part sts) : Disciplined part sts := by
  induction nested with
  | @plain n a plain =>
    intro st mem
    obtain rfl := List.mem_singleton.1 mem
    exact ⟨Action.role_of_isPlain plain, fun s => (Does.plain s plain).grows plain⟩
  | inlineIf n c _ branch =>
    intro st mem
    obtain rfl := List.mem_singleton.1 mem
    exact ⟨rfl, fun s => branch.place_stays.emits s _⟩
  | inlineIfElse n c _ _ first second =>
    intro st mem
    obtain rfl := List.mem_singleton.1 mem
    refine ⟨rfl, fun s => ?_⟩
    obtain ⟨grows, blocks⟩ := first.place_stays.captured s
    obtain ⟨own, grows', blocks', level⟩ := second.place_stays.emits
      (s.captured fun s => s.place _).2 _
    refine ⟨own, grows.trans grows', blocks'.trans blocks, fun l mem => ?_⟩
    rw [← grows.author, ← depth_eq blocks grows.scope]
    exact level l mem
  | every n interval _ body =>
    intro st mem
    obtain rfl := List.mem_singleton.1 mem
    refine ⟨rfl, fun s => ?_⟩
    obtain ⟨grows, blocks⟩ := body.stays.emitEvery s interval
    exact ⟨[], grows, blocks, by simp [Level]⟩
  | nil => exact fun s => ⟨rfl, Brackets.unwritten (Grows.refl s) _ _⟩
  | @one st _ single =>
    intro s
    obtain ⟨inside, places⟩ := single st List.mem_cons_self
    obtain ⟨own, grows, blocks, level⟩ := places (s.facing st)
    rw [Statement.brackets_other (by rw [inside]; rfl)]
    refine ⟨blocks, Brackets.statement (Brackets.inside grows (fun l mem => ?_)
      (fun l mem => Nat.le_of_eq (level l mem).2.symm) [])⟩
    exact role_of_author (level l mem).1 inside
  | append _ _ first second =>
    intro s
    obtain ⟨blocks, brackets⟩ := first s
    obtain ⟨blocks', depth, brackets'⟩ := second.under _ [] (Nat.le_refl _)
    rw [depth_eq blocks brackets.scope] at brackets'
    rw [statements_append, Statement.brackets_append]
    exact ⟨blocks'.trans blocks, brackets.trans brackets'⟩
  | block n m pairs _ body => exact Disciplined.block n m pairs body
  | ifBlock n c _ _ body rest =>
    refine Disciplined.divided n rfl fun s top below same blocks => ?_
    obtain rfl := Block.eq_branch_of_sameKind same
    refine body.then fun t sameBlocks sameDepth => ?_
    rw [← sameDepth]
    exact rest t below (sameBlocks.trans blocks)
  | endIf n =>
    intro s below blocks
    exact Brackets.closer n rfl (by simp) blocks rfl
  | elseBlock n m _ body =>
    intro s below blocks
    obtain ⟨kept, divides⟩ := Brackets.divider (a := .elseBlock) n rfl s
    refine Brackets.arm rfl divides (depth_eq kept divides.scope) body
      fun t sameBlocks sameDepth => ?_
    rw [← sameDepth]
    exact Brackets.closer m rfl (by simp) (sameBlocks.trans (kept.trans blocks)) rfl
  | elseIf n c _ _ body rest =>
    intro s below blocks
    obtain ⟨kept, divides⟩ := Brackets.divider (a := .elseIf c) n rfl s
    refine Brackets.arm rfl divides (depth_eq kept divides.scope) body
      fun t sameBlocks sameDepth => ?_
    rw [← sameDepth]
    exact rest t below (sameBlocks.trans (kept.trans blocks))
  | select n subject _ rest =>
    refine Disciplined.divided n rfl fun s top below same blocks => ?_
    obtain ⟨inCase, rfl⟩ := Block.eq_select_of_sameKind same
    exact rest s inCase below blocks
  | endSelect n =>
    intro s inCase below blocks
    exact Brackets.endSelect n blocks
  | caseOf n values _ _ body rest =>
    intro s inCase below blocks
    obtain ⟨entered, labels⟩ := Brackets.case (a := .caseOf values) n rfl blocks
    refine Brackets.arm rfl labels (depth_case blocks entered labels.scope) body
      fun t sameBlocks sameDepth => ?_
    rw [← sameDepth]
    exact rest t true below (sameBlocks.trans entered)
  | caseElse n _ _ body rest =>
    intro s inCase below blocks
    obtain ⟨entered, labels⟩ := Brackets.case (a := .caseElse) n rfl blocks
    refine Brackets.arm rfl labels (depth_case blocks entered labels.scope) body
      fun t sameBlocks sameDepth => ?_
    rw [← sameDepth]
    exact rest t true below (sameBlocks.trans entered)

end Statements

end Sketch

/-- Well-nested statements leave the blocks as they were and write lines that pair up like brackets.
-/
theorem well_nested_balanced {sts : List Statement} (nested : Nested .sequence sts) (s : Sketch)
    (writing : s.capture = none) :
    let s' := s.statements sts
    s'.scope = s.scope ∧ s'.blocks = s.blocks ∧
      (∃ events, s'.events = s.events ++ events ∧
        ∀ line block top, Event.mismatchedClose line block top ∉ events) ∧
      ∃ own : List SketchLine,
        (∀ b, ∃ new, s'.buffer b = s.buffer b ++ new ∧
          new.filter SketchLine.inPlace = if b = s.landing s.scope then own else []) ∧
        SketchLine.follow [] own = some [] ∧
        SketchLine.brackets own = Statement.brackets sts ∧ (∀ line ∈ own, line.Shown) ∧
        ∀ line ∈ own, 4 * s.depth ≤ (SketchLine.indent line.depth).length := by
  intro s'
  obtain ⟨blocks, own, grows, follows, deep, shown, roles⟩ := Sketch.nested_disciplined nested s
  obtain ⟨events, added, quiet⟩ := grows.quiet
  refine ⟨grows.scope, blocks, ⟨events, added, fun line block top mem => ?_⟩, own, fun b => ?_,
    ?_, roles, shown, fun line mem => ?_⟩
  · exact absurd (quiet _ mem) (by simp [Event.isMismatch])
  · simpa [writing] using grows.buffers b
  · simpa using follows []
  · have bound := deep line mem
    simp only [SketchLine.indent, String.length_ofList, List.length_replicate]
    omega

theorem well_nested_balanced_select :
    let forever : List Statement := [.plain 3 (.doLoop .always), .plain 4 (.loopEnd .always)]
    let cases : List Statement :=
      [.plain 8 (.caseOf [.range ⟨"1"⟩ ⟨"3"⟩]), .plain 9 .exitLoop, .plain 10 .caseElse,
        .plain 11 .endSelect]
    let sts : List Statement :=
      .plain 1 (.ifBlock ⟨"a"⟩) :: ([.every 2 ⟨"5"⟩ forever] ++
        .plain 6 (.elseIf ⟨"b"⟩) :: ((.plain 7 (.select ⟨"v"⟩) :: cases) ++
          .plain 12 .elseBlock ::
            ([.inlineIfElse 13 ⟨"c"⟩ (.plain 13 .exitLoop) (.every 13 ⟨"7"⟩ forever)] ++
              [.plain 14 .endIf])))
    let s := { Sketch.empty Options.standard with scope := .loop, blocks := [.whileLoop] }
    Nested .sequence sts ∧ s.capture = none ∧ (s.statements sts).scope = .loop ∧
      (s.statements sts).blocks = [.whileLoop] ∧
      ∃ own : List SketchLine,
        (∃ new, (s.statements sts).loop = [] ++ new ∧ new.filter SketchLine.inPlace = own) ∧
        SketchLine.follow [] own = some [] ∧ (∀ line ∈ own, line.Shown) ∧
        SketchLine.brackets own =
          [.opens .branch, .opens (.select false), .closes (.select false), .closes .branch] ∧
        ∀ line ∈ own, 8 ≤ (SketchLine.indent line.depth).length := by
  intro forever cases sts s
  have loops : Nested .sequence forever := .block 3 4 (.doLoop .always .always) .nil
  have selects : Nested .cases cases :=
    .caseOf 8 _ (.one (.plain 9 rfl)) (.caseElse 10 .nil (.endSelect 11))
  have nested : Nested .sequence sts :=
    .ifBlock 1 _ (.one (.every 2 _ loops)) (.elseIf 6 _ (.select 7 _ selects)
      (.elseBlock 12 14 (.one (.inlineIfElse 13 _ (.plain 13 rfl) (.every 13 _ loops)))))
  obtain ⟨scope, blocks, -, own, buffers, follows, roles, shown, deep⟩ :=
    well_nested_balanced nested s rfl
  exact ⟨nested, rfl, scope, blocks, own, buffers .loop, follows, shown, roles, deep⟩

end BasicSketch
