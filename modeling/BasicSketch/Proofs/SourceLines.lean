import BasicSketch.Proofs.LogicalLines
import BasicSketch.Proofs.Reading

set_option autoImplicit false

/-! What becomes of the lines of a source. -/

namespace BasicSketch

namespace Statement

mutual

/-- Numbers of the lines below the one a statement stands on: the bodies of its `Every`s. -/
def bodyNumbers : Statement → List Nat
  | .plain _ _ => []
  | .inlineIf _ _ thenBranch => thenBranch.bodyNumbers
  | .inlineIfElse _ _ thenBranch elseBranch => thenBranch.bodyNumbers ++ elseBranch.bodyNumbers
  | .every _ _ body => numbers body

def numbers : List Statement → List Nat
  | [] => []
  | first :: rest => first.line :: (first.bodyNumbers ++ numbers rest)

end

mutual

def BranchesOnLine : Statement → Prop
  | .plain _ _ => True
  | .inlineIf n _ thenBranch => thenBranch.line = n ∧ thenBranch.BranchesOnLine
  | .inlineIfElse n _ thenBranch elseBranch =>
    (thenBranch.line = n ∧ elseBranch.line = n) ∧
      thenBranch.BranchesOnLine ∧ elseBranch.BranchesOnLine
  | .every _ _ body => AllBranchesOnLine body

def AllBranchesOnLine : List Statement → Prop
  | [] => True
  | first :: rest => first.BranchesOnLine ∧ AllBranchesOnLine rest

end

mutual

/-- No line stands between the two branches of a single-line `If`. -/
def BranchesTogether : Statement → Prop
  | .plain _ _ => True
  | .inlineIf _ _ thenBranch => thenBranch.BranchesTogether
  | .inlineIfElse _ _ thenBranch elseBranch =>
    thenBranch.bodyNumbers = [] ∧ thenBranch.BranchesTogether ∧ elseBranch.BranchesTogether
  | .every _ _ body => AllBranchesTogether body

def AllBranchesTogether : List Statement → Prop
  | [] => True
  | first :: rest => first.BranchesTogether ∧ AllBranchesTogether rest

end

end Statement

namespace LineForm

def opensEvery : LineForm → Bool
  | .every _ => true
  | .inlineIf _ f | .danglingElse _ f => f.opensEvery
  | .inlineIfElse _ f g => f.opensEvery || g.opensEvery
  | .action _ | .malformed _ _ | .untranslated _ _ => false

/-- A line of this form opens an `Every` in a branch that is not kept. -/
def drops : LineForm → Bool
  | .danglingElse _ f => f.opensEvery
  | .inlineIf _ f => f.drops
  | .inlineIfElse _ f g => f.drops || g.drops
  | .action _ | .malformed _ _ | .untranslated _ _ | .every _ => false

end LineForm

inductive Fate where
  | statement
  | closes
  | dropped
  deriving DecidableEq, Repr

namespace Reading

mutual

/-- The fates of the lines that reading a form takes. -/
def formFates (s : Reading) (form : LineForm) : List Fate :=
  match form with
  | .action _ | .malformed _ _ | .untranslated _ _ => []
  | .every _ => s.fates (some s.line)
  | .inlineIf _ thenForm => s.formFates thenForm
  | .inlineIfElse _ thenForm elseForm =>
    s.formFates thenForm ++ (s.afterThen thenForm).formFates elseForm
  | .danglingElse _ thenForm => (s.formFates thenForm).map fun _ => .dropped
termination_by (s.lines.length, 0, sizeOf form)
decreasing_by
  all_goals
    try have onward := length_afterThen_le s thenForm
    simp only [Prod.lex_def, true_and, LineForm.every.sizeOf_spec, LineForm.inlineIf.sizeOf_spec,
      LineForm.inlineIfElse.sizeOf_spec, LineForm.danglingElse.sizeOf_spec]
    omega

def lineFates (s : Reading) (line : LogicalLine) : List Fate :=
  match s.body with
  | none => { s with line := line.number }.formFates (LineForm.ofText line.text)
  | some body =>
    match BodyLine.ofTokens body (Token.ofLine line.text) with
    | .leaves => (s.leave line.number body).formFates (LineForm.ofText line.text)
    | .ends | .entry _ => []
termination_by (s.lines.length, 1, 0)

def fates (s : Reading) (every : Option Nat) : List Fate :=
  match _lines : s.lines with
  | [] => []
  | line :: rest =>
    let s' := { s with lines := rest }
    if every.isSome && isEndDo line.text then [.closes]
    else .statement :: (s'.lineFates line ++ (s'.lineStatement line).1.2.fates every)
termination_by (s.lines.length, 0, 0)
decreasing_by
  · simp only [Prod.lex_def, _lines, List.length_cons]
    omega
  · have onward := (s'.lineStatement line).2
    simp only [s', Prod.lex_def, _lines, List.length_cons] at *
    omega

end

variable {s after : Reading} {line : LogicalLine} {a b : List LogicalLine} {fs : List Fate}

variable {t : Reading} {action : Action} {every : Option Nat} {rest : List LogicalLine}
  {gs : List Fate} {m : List Nat}

theorem formFates_leaf {n : Nat} {f : LineForm} (leaf : Leaf s n f action t) :
    s.formFates f = [] := by
  cases leaf <;> rw [formFates]

theorem lineFates_opens (opens : Opens s line t) :
    s.lineFates line = t.formFates (LineForm.ofText line.text) := by
  obtain ⟨lines, number, inner, events⟩ := s
  cases opens with
  | free free =>
    obtain rfl : inner = none := free
    rw [lineFates]
  | leaves inside leaves =>
    obtain rfl : inner = some _ := inside
    simp only [lineFates, leaves]

theorem lineFates_continues (continues : Continues s line action t) : s.lineFates line = [] := by
  obtain ⟨lines, number, inner, events⟩ := s
  cases continues with
  | ends inside read | entry inside read | unread inside read =>
    obtain rfl : inner = some _ := inside
    simp only [lineFates, read]

theorem fates_end (every : Option Nat) (none_left : s.lines = []) : s.fates every = [] := by
  rw [fates.eq_def]
  split <;> simp_all

theorem fates_closed (lines : s.lines = line :: rest)
    (closes : (every.isSome && isEndDo line.text) = true) : s.fates every = [.closes] := by
  rw [fates.eq_def]
  split
  · simp_all
  · rename_i line' rest' eq
    obtain ⟨rfl, rfl⟩ : line = line' ∧ rest = rest' := by simpa [lines] using eq
    simp [closes]

theorem fates_cons (lines : s.lines = line :: rest)
    (stays : ¬(every.isSome && isEndDo line.text) = true) :
    s.fates every =
      .statement :: ({ s with lines := rest }.lineFates line ++
        ({ s with lines := rest }.lineStatement line).1.2.fates every) := by
  rw [fates.eq_def]
  split
  · simp_all
  · rename_i line' rest' eq
    obtain ⟨rfl, rfl⟩ : line = line' ∧ rest = rest' := by simpa [lines] using eq
    simp [stays]

def numbersWith (keep : Fate → Bool) (ls : List LogicalLine) (fates : List Fate) : List Nat :=
  ((ls.zip fates).filter (fun p => keep p.2)).map (·.1.number)

theorem numbersWith_append (keep : Fate → Bool) (same : fs.length = a.length) :
    numbersWith keep (a ++ b) (fs ++ gs) = numbersWith keep a fs ++ numbersWith keep b gs := by
  simp [numbersWith, List.zip_append same.symm]

/-- The fates of the lines `taken`, those of statements having the given numbers. -/
structure Accounts (taken : List LogicalLine) (fates : List Fate) (numbers : List Nat) :
    Prop where
  length : fates.length = taken.length
  listed : numbersWith (· == .statement) taken fates = numbers
  closing : ∀ l, (l, .closes) ∈ taken.zip fates → isEndDo l.text = true

theorem Accounts.nil : Accounts [] [] [] := ⟨rfl, rfl, by simp⟩

theorem Accounts.append {n : List Nat} (left : Accounts a fs m) (right : Accounts b gs n) :
    Accounts (a ++ b) (fs ++ gs) (m ++ n) where
  length := by simp [left.length, right.length]
  listed := by rw [numbersWith_append _ left.length, left.listed, right.listed]
  closing l mem := by
    rw [List.zip_append left.length.symm] at mem
    rcases List.mem_append.1 mem with here | later
    · exact left.closing l here
    · exact right.closing l later

theorem Accounts.statement (l : LogicalLine) : Accounts [l] [.statement] [l.number] where
  length := rfl
  listed := rfl
  closing := by simp

theorem Accounts.closes {l : LogicalLine} (ends : isEndDo l.text = true) :
    Accounts [l] [.closes] [] where
  length := rfl
  listed := rfl
  closing := by simp [ends]

theorem Accounts.drop (kept : Accounts a fs m) :
    Accounts a (fs.map fun _ => .dropped) [] where
  length := by simp [kept.length]
  listed := by
    simp only [numbersWith, List.map_eq_nil_iff, List.filter_eq_nil_iff]
    intro p mem
    have fate := (List.of_mem_zip mem).2
    simp only [List.mem_map] at fate
    obtain ⟨_, _, eq⟩ := fate
    simp [← eq]
  closing l mem := by
    have fate := (List.of_mem_zip mem).2
    simp at fate

def Takes (s : Reading) (fates : List Fate) (numbers : List Nat) (after : Reading) : Prop :=
  ∃ taken, s.lines = taken ++ after.lines ∧ Accounts taken fates numbers

theorem Takes.none (same : s.lines = after.lines) : Takes s [] [] after :=
  ⟨[], by simp [same], .nil⟩

theorem Takes.trans {s t u : Reading} {fs gs : List Fate} {m n : List Nat}
    (left : Takes s fs m t) (right : Takes t gs n u) : Takes s (fs ++ gs) (m ++ n) u := by
  obtain ⟨a, eq, here⟩ := left
  obtain ⟨b, eq', there⟩ := right
  exact ⟨a ++ b, by rw [eq, eq', List.append_assoc], here.append there⟩

theorem takes_run : Always
    (fun s n f r => Takes s (formFates s f) r.1.bodyNumbers r.2 ∧ r.1.line = n)
    (fun s l r => Takes s (s.lineFates l) r.1.bodyNumbers r.2 ∧ r.1.line = l.number)
    (fun s every r => Takes s (s.fates every) (Statement.numbers r.1) r.2) := by
  apply run_induction
  case leaf =>
    intro s n f a t leaf
    rw [formFates_leaf leaf]
    exact ⟨.none leaf.kept.1.symm, rfl⟩
  case every =>
    intro s n interval r _ ih
    rw [formFates]
    exact ⟨ih, rfl⟩
  case inlineIf =>
    intro s n c f ih
    rw [formFates]
    exact ⟨ih.1, rfl⟩
  case inlineIfElse =>
    intro s n c f g ih ih'
    rw [formFates]
    exact ⟨Takes.trans (t := s.afterThen f) ih.1 ih'.1, rfl⟩
  case danglingElse =>
    intro s n text f ih
    rw [formFates]
    obtain ⟨⟨taken, eq, account⟩, -⟩ := ih
    exact ⟨⟨taken, eq, account.drop⟩, rfl⟩
  case opens =>
    intro s l t r opens ih
    obtain ⟨taken, number⟩ := ih
    rw [lineFates_opens opens]
    exact ⟨by simpa only [Takes, opens.kept.1] using taken, number⟩
  case continues =>
    intro s l a t continues
    rw [lineFates_continues continues]
    exact ⟨.none continues.kept.1.symm, rfl⟩
  case ended =>
    intro s every none_left
    rw [fates_end every none_left]
    cases every <;> exact .none rfl
  case closed =>
    intro s every l rest eq closes
    rw [fates_closed eq closes]
    simp only [Bool.and_eq_true] at closes
    exact ⟨[l], eq, .closes closes.2⟩
  case cons =>
    intro s every l rest first r eq stays here after ih ih'
    rw [fates_cons eq stays, here]
    obtain ⟨taken, eq', account⟩ := ih.1.trans ih'
    refine ⟨l :: taken, by simp [eq, ← eq'], ?_⟩
    simpa [Statement.numbers, ih.2] using (Accounts.statement l).append account

theorem lines_suffix_afterThen (s : Reading) (f : LineForm) :
    (s.afterThen f).lines <:+ s.lines := by
  obtain ⟨⟨taken, eq, -⟩, -⟩ := takes_run.form s s.line f
  exact ⟨taken, eq.symm⟩

def SomeDrops (ls : List LogicalLine) : Prop := ∃ l ∈ ls, (LineForm.ofText l.text).drops = true

theorem SomeDrops.mono (drop : SomeDrops a) (within : a ⊆ b) : SomeDrops b := by
  obtain ⟨l, mem, drops⟩ := drop
  exact ⟨l, within mem, drops⟩

theorem dropped_run : Always
    (fun s _ f _ => (s.formFates f ≠ [] → f.opensEvery = true) ∧
      (Fate.dropped ∈ s.formFates f → f.drops = true ∨ SomeDrops s.lines))
    (fun s l _ => Fate.dropped ∈ s.lineFates l → SomeDrops (l :: s.lines))
    (fun s every _ => Fate.dropped ∈ s.fates every → SomeDrops s.lines) := by
  apply run_induction
  case leaf => intro s n f a t leaf; simp [formFates_leaf leaf]
  case every =>
    intro s n interval r _ ih
    rw [formFates]
    exact ⟨fun _ => rfl, fun mem => .inr (ih mem)⟩
  case inlineIf =>
    intro s n c f ih
    rw [formFates]
    exact ih
  case inlineIfElse =>
    intro s n c f g ih ih'
    rw [formFates]
    constructor
    · intro taken
      rw [LineForm.opensEvery, Bool.or_eq_true]
      by_cases empty : s.formFates f = []
      · exact .inr (ih'.1 (by simpa [empty] using taken))
      · exact .inl (ih.1 empty)
    · intro mem
      rw [LineForm.drops, Bool.or_eq_true]
      rcases List.mem_append.1 mem with here | later
      · exact (ih.2 here).imp .inl id
      · refine (ih'.2 later).imp .inr fun drop => drop.mono ?_
        exact (lines_suffix_afterThen s f).subset
  case danglingElse =>
    intro s n text f ih
    rw [formFates]
    refine ⟨fun taken => ih.1 (by simpa using taken), fun mem => .inl (ih.1 ?_)⟩
    intro empty
    simp [empty] at mem
  case opens =>
    intro s l t r opens ih mem
    rw [lineFates_opens opens] at mem
    rw [← opens.kept.1]
    rcases ih.2 mem with here | later
    · exact ⟨l, List.mem_cons_self, here⟩
    · exact later.mono (List.subset_cons_self l _)
  case continues => intro s l a t continues; simp [lineFates_continues continues]
  case ended => intro s every none_left; simp [fates_end every none_left]
  case closed => intro s every l rest eq closes; simp [fates_closed eq closes]
  case cons =>
    intro s every l rest first r eq stays here after ih ih' mem
    rw [fates_cons eq stays, here] at mem
    rcases List.mem_append.1 (List.mem_of_ne_of_mem (by simp) mem) with now | later
    · exact eq ▸ ih now
    · refine (ih' later).mono ?_
      obtain ⟨⟨taken, lines, -⟩, -⟩ := takes_run.line { s with lines := rest } l
      rw [here] at lines
      rw [eq]
      intro l' mem'
      refine List.mem_cons_of_mem _ ?_
      rw [show rest = taken ++ first.2.lines from lines]
      exact List.mem_append_right _ mem'

def Ahead (s : Reading) : Prop :=
  (∀ l ∈ s.lines, s.line < l.number) ∧ s.lines.Pairwise (fun a b => a.number < b.number)

structure Advances (start : Nat) (numbers : List Nat) (after : Reading) : Prop where
  ahead : after.Ahead
  stays : numbers = [] → after.line = start
  moves : numbers ≠ [] → start < after.line

theorem Advances.le {start : Nat} {numbers : List Nat} (advances : Advances start numbers after) :
    start ≤ after.line := by
  by_cases empty : numbers = []
  · exact Nat.le_of_eq (advances.stays empty).symm
  · exact Nat.le_of_lt (advances.moves empty)

theorem Advances.trans {start : Nat} {m n : List Nat} {t u : Reading}
    (left : Advances start m t) (right : Advances t.line n u) : Advances start (m ++ n) u where
  ahead := right.ahead
  stays empty := by
    obtain ⟨rfl, rfl⟩ := List.append_eq_nil_iff.1 empty
    rw [right.stays rfl, left.stays rfl]
  moves filled := by
    have up := left.le
    have up' := right.le
    by_cases empty : m = []
    · have after := right.moves (by simpa [empty] using filled)
      omega
    · have after := left.moves empty
      omega

theorem Advances.none (ahead : s.Ahead) (lines : after.lines = s.lines)
    (line : after.line = s.line) : Advances s.line [] after where
  ahead := by simpa [Ahead, lines, line] using ahead
  stays _ := line
  moves filled := absurd rfl filled

theorem branches_run : Always
    (fun s n f r => s.Ahead → n = s.line → Fate.dropped ∉ s.formFates f →
      Advances n r.1.bodyNumbers r.2 ∧ (r.1.BranchesOnLine ↔ r.1.BranchesTogether))
    (fun s l r => Ahead { s with line := l.number } → Fate.dropped ∉ s.lineFates l →
      Advances l.number r.1.bodyNumbers r.2 ∧ (r.1.BranchesOnLine ↔ r.1.BranchesTogether))
    (fun s every r => s.Ahead → Fate.dropped ∉ s.fates every →
      Advances s.line (Statement.numbers r.1) r.2 ∧
        (Statement.AllBranchesOnLine r.1 ↔ Statement.AllBranchesTogether r.1)) := by
  apply run_induction
  case leaf =>
    rintro s _ f a t leaf ahead rfl -
    exact ⟨.none ahead leaf.kept.1 leaf.kept.2, Iff.rfl⟩
  case every =>
    rintro s _ interval r _ ih ahead rfl kept
    rw [formFates] at kept
    exact ih ahead kept
  case inlineIf =>
    rintro s _ c f ih ahead rfl kept
    rw [formFates] at kept
    obtain ⟨advances, same⟩ := ih ahead rfl kept
    refine ⟨⟨advances.ahead, advances.stays, advances.moves⟩, ?_⟩
    simp only [Statement.BranchesOnLine, Statement.BranchesTogether, (takes_run.form s _ f).2, same,
      true_and]
  case inlineIfElse =>
    rintro s _ c f g ih ih' ahead rfl kept
    rw [formFates, List.mem_append, not_or] at kept
    obtain ⟨advances, same⟩ := ih ahead rfl kept.1
    have between : Advances s.line (s.statement s.line f).1.1.bodyNumbers (s.afterThen f) :=
      ⟨advances.ahead, advances.stays, advances.moves⟩
    obtain ⟨advances', same'⟩ := ih' between.ahead rfl kept.2
    have whole := between.trans advances'
    refine ⟨⟨whole.ahead, whole.stays, whole.moves⟩, ?_⟩
    have number : (s.afterThen f).line = s.line ↔
        (s.statement s.line f).1.1.bodyNumbers = [] := by
      refine ⟨fun line => ?_, between.stays⟩
      by_cases empty : (s.statement s.line f).1.1.bodyNumbers = []
      · exact empty
      · have moved := between.moves empty
        omega
    simp only [Statement.BranchesOnLine, Statement.BranchesTogether, (takes_run.form s _ f).2,
      (takes_run.form (s.afterThen f) _ g).2, same, same', number, true_and]
  case danglingElse =>
    rintro s _ text f ih ahead rfl kept
    have untaken : s.formFates f = [] := by
      refine List.eq_nil_iff_forall_not_mem.2 fun fate mem => kept ?_
      rw [formFates]
      exact List.mem_map.2 ⟨fate, mem, rfl⟩
    obtain ⟨advances, -⟩ := ih ahead rfl (by simp [untaken])
    obtain ⟨⟨taken, -, account⟩, -⟩ := takes_run.form s s.line f
    have numbers : (s.statement s.line f).1.1.bodyNumbers = [] := by
      rw [← account.listed, untaken]
      simp [numbersWith]
    refine ⟨⟨advances.ahead, fun _ => advances.stays numbers, fun filled => absurd rfl filled⟩,
      Iff.rfl⟩
  case opens =>
    intro s l t r opens ih ahead kept
    obtain ⟨lines, line, -⟩ := opens.kept
    rw [lineFates_opens opens] at kept
    exact ih (by simpa only [Ahead, lines, line] using ahead) line.symm kept
  case continues =>
    intro s l a t continues ahead _
    exact ⟨.none ahead continues.kept.1 continues.kept.2, Iff.rfl⟩
  case ended =>
    intro s every none_left ahead _
    cases every <;> exact ⟨.none ahead rfl rfl, Iff.rfl⟩
  case closed =>
    intro s every l rest eq closes ahead _
    rw [Ahead, eq] at ahead
    refine ⟨⟨⟨fun l' mem => ahead.1 l' (List.mem_cons_of_mem l mem), ahead.2.of_cons⟩,
      fun _ => rfl, fun filled => absurd rfl filled⟩, Iff.rfl⟩
  case cons =>
    intro s every l rest first r eq stays here after ih ih' ahead kept
    rw [fates_cons eq stays, here] at kept
    simp only [List.mem_cons, List.mem_append, not_or] at kept
    rw [Ahead, eq] at ahead
    have past := ahead.1 l List.mem_cons_self
    obtain ⟨advances, same⟩ :=
      ih ⟨fun _ => List.rel_of_pairwise_cons ahead.2, ahead.2.of_cons⟩ kept.2.1
    obtain ⟨advances', same'⟩ := ih' advances.ahead kept.2.2
    have up := advances.le
    have up' := advances'.le
    refine ⟨⟨advances'.ahead, fun empty => ?_, fun _ => ?_⟩, ?_⟩
    · simp [Statement.numbers] at empty
    · change s.line < r.2.line
      omega
    · simp only [Statement.AllBranchesOnLine, Statement.AllBranchesTogether, same, same']

theorem lines_of_statements (s : Reading) : (s.statements none).1.2.lines = [] := by
  have all : Always (fun _ _ _ _ => True) (fun _ _ _ => True)
      (fun _ every r => every = none → r.2.lines = []) := by
    apply run_induction
    case ended => rintro s _ none_left rfl; exact none_left
    case closed => rintro s _ l rest - closes rfl; simp at closes
    case cons => intro s every l rest first r _ _ _ _ _ ih outside; exact ih outside
    all_goals intros; trivial
  exact all.lines s none rfl

end Reading

open Reading (numbersWith ofLines)

theorem length_numbersWith_le (ls : List LogicalLine) (fates : List Fate) :
    (numbersWith (· == .statement) ls fates).length ≤
      (numbersWith (· != .closes) ls fates).length := by
  simp only [numbersWith, List.length_map, ← List.countP_eq_length_filter]
  refine List.countP_mono_left fun p _ statement => ?_
  simp_all

theorem numbersWith_kept {ls : List LogicalLine} {fates : List Fate}
    (same : fates.length = ls.length) :
    numbersWith (· != .closes) ls fates = numbersWith (· == .statement) ls fates ↔
      Fate.dropped ∉ fates := by
  induction ls generalizing fates with
  | nil =>
    obtain rfl := List.length_eq_zero_iff.1 same
    simp [numbersWith]
  | cons l rest ih =>
    cases fates with
    | nil => simp at same
    | cons fate more =>
      have tail := @ih more (by simpa using same)
      cases fate with
      | statement => simpa [numbersWith] using tail
      | closes => simpa [numbersWith] using tail
      | dropped =>
        -- A dropped line makes the left list longer than the right one can be.
        have shorter := length_numbersWith_le rest more
        refine iff_of_false (fun equal => ?_) (by simp)
        have lengths := congrArg List.length equal
        simp only [numbersWith, List.zip_cons_cons, List.filter_cons, List.length_map] at *
        simp at lengths
        omega

/-- Every line of a source has one fate. -/
theorem source_lines_accounted (source : String) :
    let lines := LogicalLine.ofSource source
    let statements := (Program.ofSource source).statements
    let fates := (Reading.ofLines lines).fates none
    fates.length = lines.length ∧
      Reading.numbersWith (· == .statement) lines fates = Statement.numbers statements ∧
      (∀ l, (l, .closes) ∈ lines.zip fates → Reading.isEndDo l.text = true) ∧
      (.dropped ∈ fates → ∃ l ∈ lines, (LineForm.ofText l.text).drops = true) ∧
      (Reading.numbersWith (· != .closes) lines fates = Statement.numbers statements ∧
          Statement.AllBranchesOnLine statements ↔
        .dropped ∉ fates ∧ Statement.AllBranchesTogether statements) := by
  intro lines statements fates
  obtain ⟨taken, all, account⟩ := Reading.takes_run.lines (Reading.ofLines lines) none
  rw [Reading.lines_of_statements, List.append_nil] at all
  obtain rfl : lines = taken := all
  have ahead : (Reading.ofLines lines).Ahead :=
    ⟨fun l mem => LogicalLine.number_pos_of_mem_ofSource mem,
      LogicalLine.ofSource_increasing source⟩
  refine ⟨account.length, account.listed, account.closing,
    Reading.dropped_run.lines (Reading.ofLines lines) none, ?_⟩
  have listed : Reading.numbersWith (· == .statement) lines fates = Statement.numbers statements :=
    account.listed
  rw [← listed, numbersWith_kept account.length]
  refine and_congr_right fun kept => ?_
  exact (Reading.branches_run.lines (Reading.ofLines lines) none ahead kept).2

end BasicSketch
