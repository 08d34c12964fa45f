import BasicSketch.Proofs.NestedIf
import BasicSketch.Proofs.ProgramProvenance
import BasicSketch.Proofs.SourceLines

set_option autoImplicit false

/-! The bodies of records and enumerations. -/

namespace BasicSketch

namespace BodyKind

def holds (kind : BodyKind) : Statement → Bool
  | .plain _ a => kind.owns a
  | _ => false

end BodyKind

namespace Statement

def starts? : Statement → Option BodyKind
  | .plain _ (.typeStart _) => some .record
  | .plain _ (.enumStart _) => some .enumeration
  | _ => none

def isEntry : Statement → Bool
  | .plain _ a => a.isEntry
  | _ => false

mutual

/-- The statements of an `Every` that is the statement or, with `branches`, stands in a branch of
it. -/
def inner (branches : Bool) : Statement → List Statement
  | .plain _ _ => []
  | .inlineIf _ _ thenBranch => if branches then thenBranch.inner branches else []
  | .inlineIfElse _ _ thenBranch elseBranch =>
    if branches then thenBranch.inner branches ++ elseBranch.inner branches else []
  | .every _ _ body => listed branches body

/-- The statements in the order of the source, each `Every` before its body. -/
def listed (branches : Bool) : List Statement → List Statement
  | [] => []
  | first :: rest => first :: (first.inner branches ++ listed branches rest)

end

/-- The statement is in a body of its kind: after the start of one, with only lines of that body in
between. -/
def Opened (st : Statement) (before : List Statement) : Prop :=
  ∃ kind earlier start inside, before = earlier ++ start :: inside ∧
    starts? start = some kind ∧ ∀ x ∈ inside ++ [st], kind.holds x = true

theorem inner_of_starts? {branches : Bool} {st : Statement} {kind : BodyKind}
    (starts : st.starts? = some kind) : st.inner branches = [] := by
  unfold starts? at starts
  split at starts <;> first | rfl | cases starts

end Statement

def beginsWith (words : List Keyword) (text : String) : Bool :=
  (Token.ofLine text).head?.any fun t => words.any fun word => t.kind == .keyword word

def LogicalLine.isLed (line : LogicalLine) : Bool :=
  beginsWith [.End, .Sub, .Function] line.text

namespace LineForm

def isEntry : LineForm → Bool
  | .action a => a.isEntry
  | _ => false

theorem isEntry_ofText (text : String) : (ofText text).isEntry = false := by
  cases form : ofText text with
  | action a =>
    rcases settled_of_action form with ⟨c, rfl⟩ | ⟨-, settled⟩
    · rfl
    · exact settled.2.1
  | _ => rfl

theorem headsHeader_ofText {text : String} {h : ProcedureHeader}
    (read : ofText text = .action (.procedureStart h)) : HeadsHeader (Token.ofLine text) := by
  rcases settled_of_action read with ⟨c, same⟩ | ⟨-, settled⟩
  · cases same
  · exact settled.2.2 rfl

end LineForm

namespace Reading

open LineForm

/-- A header ends a body that was not ended, unless it begins with `Public` or `Private`. -/
theorem header_leaves_body {text : String} {h : ProcedureHeader}
    (read : ofText text = .action (.procedureStart h)) {s : Reading} {body : BodyKind}
    (inside : s.body = some body) (number : Nat) :
    let r := (s.lineStatement ⟨number, text⟩).1
    if beginsWith [.Public, .Private] text then body.holds r.1 = true ∧ r.2.body = some body
    else r.1 = .plain number (.procedureStart h) ∧ r.2.body = none := by
  obtain ⟨first, rest, line, word⟩ := headsHeader_ofText read
  dsimp only
  by_cases visible : beginsWith [.Public, .Private] text = true
  · rw [if_pos visible]
    have entry : BodyLine.ofTokens body (Token.ofLine text) =
        .entry (body.entry.value (first :: rest)) := by
      rw [beginsWith, line] at visible
      have kind : first.kind = .keyword .Public ∨ first.kind = .keyword .Private := by
        simpa using visible
      rcases kind with kind | kind <;> simp [line, BodyLine.ofTokens, kind]
    cases found : body.entry.value (first :: rest) with
    | ok a =>
      rw [found] at entry
      rw [lineStatement_continues (.entry inside entry)]
      exact ⟨(BodyLine.from_entry entry).2, inside⟩
    | error e =>
      rw [found] at entry
      rw [lineStatement_continues (.unread inside entry)]
      exact ⟨by cases body <;> rfl, inside⟩
  · rw [if_neg visible]
    have leaves : BodyLine.ofTokens body (Token.ofLine text) = .leaves := by
      rw [beginsWith, line] at visible
      have kind : first.kind = .keyword .Sub ∨ first.kind = .keyword .Function := by
        simp_all
      rcases kind with kind | kind <;> simp [line, BodyLine.ofTokens, kind]
    rw [lineStatement_opens (.leaves inside leaves), read, statement_action]
    exact ⟨rfl, rfl⟩

theorem header_leaves_body_public :
    let r := ((⟨[], 0, some .record, []⟩ : Reading).lineStatement ⟨3, "Public Sub Foo()"⟩).1
    BodyKind.record.holds r.1 = true ∧ r.2.body = some .record :=
  @header_leaves_body "Public Sub Foo()" ⟨.sub, "Foo", [], none⟩ (by decide +kernel)
    ⟨[], 0, some .record, []⟩ .record rfl 3

abbrev Row : Type := LogicalLine × Option Statement

/-- Each row is a line of the body, an `End Do` that is no statement aside, if no other is led by
`End`, `Sub` or `Function`. -/
def Encloses (kind : BodyKind) (rows : List Row) : Prop :=
  (∀ row ∈ rows, row.1.isLed = true → isEndDo row.1.text = true ∧ row.2 = none) →
    ∀ row ∈ rows, row.1.isLed = false →
      ∃ a, kind.owns a = true ∧ row.2 = some (.plain row.1.number a)

inductive Rows (branches : Bool) (last : Option BodyKind) : Option BodyKind → List Row → Prop
  | nil : Rows branches last last []
  | entry {kind : BodyKind} {l : LogicalLine} {a : Action} {rows : List Row}
      (owned : kind.owns a = true) (rest : Rows branches last (some kind) rows) :
      Rows branches last (some kind) ((l, some (.plain l.number a)) :: rows)
  | other {body : Option BodyKind} {l : LogicalLine} {st : Statement} {rows : List Row}
      (number : st.line = l.number) (plain : st.isEntry = false)
      (led : body = none ∨ l.isLed = true) (rest : Rows branches last st.starts? rows) :
      Rows branches last body ((l, some st) :: rows)
  /-- The end of an `Every`, or a line that is read for a branch of a single-line `If`. -/
  | pass {body : Option BodyKind} {l : LogicalLine} {rows : List Row}
      (passes : body = none ∨ isEndDo l.text = true) (rest : Rows branches last body rows) :
      Rows branches last body ((l, none) :: rows)
  | forget {body : Option BodyKind} {rows : List Row} (all : branches = true)
      (rest : Rows branches last none rows) : Rows branches last body rows

variable {branches : Bool} {body middle last : Option BodyKind} {rows more run after : List Row}
  {kind : BodyKind}

theorem Rows.append (first : Rows branches middle body rows)
    (second : Rows branches last middle more) : Rows branches last body (rows ++ more) := by
  induction first with
  | nil => exact second
  | entry owned _ ih => exact .entry owned ih
  | other number plain led _ ih => exact .other number plain led ih
  | pass passes _ ih => exact .pass passes ih
  | forget all _ ih => exact .forget all ih

def Reads (branches : Bool) (body : Option BodyKind) (lines : List LogicalLine)
    (sts : List Statement) (t : Reading) : Prop :=
  ∃ rows : List Row, lines = rows.map Prod.fst ++ t.lines ∧ rows.filterMap Prod.snd = sts ∧
    Rows branches t.body body rows

namespace Reads

variable {lines : List LogicalLine} {l : LogicalLine} {s t : Reading} {sts others : List Statement}
  {st : Statement}

theorem nil (same : lines = t.lines) : Reads branches t.body lines [] t :=
  ⟨[], same, rfl, .nil⟩

theorem other (number : st.line = l.number) (plain : st.isEntry = false)
    (led : body = none ∨ l.isLed = true) (rest : Reads branches st.starts? lines sts t) :
    Reads branches body (l :: lines) (st :: sts) t := by
  obtain ⟨rows, rfl, rfl, read⟩ := rest
  exact ⟨(l, some st) :: rows, rfl, rfl, .other number plain led read⟩

theorem append (first : Reads branches body lines sts s)
    (second : Reads branches s.body s.lines others t) :
    Reads branches body lines (sts ++ others) t := by
  obtain ⟨rows, rfl, rfl, read⟩ := first
  obtain ⟨more, same, rfl, read'⟩ := second
  exact ⟨rows ++ more, by simp [same], by simp, read.append read'⟩

theorem skipped {taken : List LogicalLine} (all : lines = taken ++ t.lines)
    (free : t.body = none) : Reads branches none lines [] t := by
  refine ⟨taken.map (·, none), by simp [all, Function.comp_def], by simp, ?_⟩
  rw [free]
  clear all
  induction taken with
  | nil => exact .nil
  | cons l taken ih => exact .pass (.inl rfl) ih

theorem branch (read : Reads branches st.starts? lines (st.inner branches) t) :
    Reads branches none lines (if branches then st.inner branches else [])
      { t with body := none } := by
  obtain ⟨rows, all, listed, read⟩ := read
  cases branches with
  | false => exact skipped all rfl
  | true =>
    cases starts : st.starts? with
    | some kind =>
      rw [Statement.inner_of_starts? starts]
      exact skipped all rfl
    | none =>
      rw [starts] at read
      refine ⟨rows, all, listed, ?_⟩
      simpa using read.append (.forget rfl .nil)

end Reads

theorem isLed_of_body {l : LogicalLine}
    (read : BodyLine.ofTokens kind (Token.ofLine l.text) = .leaves ∨
      BodyLine.ofTokens kind (Token.ofLine l.text) = .ends) : l.isLed = true := by
  unfold LogicalLine.isLed beginsWith
  unfold BodyLine.ofTokens at read
  cases line : Token.ofLine l.text with
  | nil => simp [line] at read
  | cons first rest =>
    simp only [line] at read
    split at read <;> simp_all

theorem isLed_of_isEndDo {l : LogicalLine} (ends : isEndDo l.text = true) : l.isLed = true := by
  unfold isEndDo at ends
  split at ends
  · rename_i line
    simp [LogicalLine.isLed, beginsWith, line, (Bool.and_eq_true_iff.1 ends).1]
  · cases ends

theorem reads_run (branches : Bool) (s : Reading) (every : Option Nat) :
    Reads branches s.body s.lines (Statement.listed branches (s.statements every).1.1)
      (s.statements every).1.2 := by
  have all : Always
      (fun s n f r => s.body = none → r.1.line = n ∧ (f.isEntry = false → r.1.isEntry = false) ∧
        Reads branches r.1.starts? s.lines (r.1.inner branches) r.2)
      (fun s l r => Reads branches s.body (l :: s.lines) (r.1 :: r.1.inner branches) r.2)
      (fun s _ r => Reads branches s.body s.lines (Statement.listed branches r.1) r.2) := by
    apply run_induction
    case leaf =>
      intro s n f a t leaf free
      have body : (Statement.plain n a).starts? = t.body := by
        cases leaf with
        | action => cases a <;> first | exact free.symm | rfl
        | _ => exact free.symm
      refine ⟨rfl, by cases leaf <;> exact id, ?_⟩
      rw [body]
      exact .nil leaf.kept.1.symm
    case every =>
      intro s n interval r _ ih free
      rw [free] at ih
      exact ⟨rfl, fun _ => rfl, ih⟩
    case inlineIf =>
      intro s n c f ih free
      exact ⟨rfl, fun _ => rfl, (ih free).2.2.branch⟩
    case inlineIfElse =>
      intro s n c f g ih ih' free
      have both := (ih free).2.2.branch.append (ih' rfl).2.2.branch
      refine ⟨rfl, fun _ => rfl, ?_⟩
      cases branches <;> exact both
    case danglingElse =>
      intro s n text f ih free
      obtain ⟨-, -, rows, all, -⟩ := ih free
      exact ⟨rfl, fun _ => rfl, .skipped all rfl⟩
    case opens =>
      intro s l t r opens ih
      obtain ⟨lines, -, free⟩ := opens.kept
      obtain ⟨number, plain, read⟩ := ih free
      rw [lines] at read
      refine .other number (plain (isEntry_ofText l.text)) ?_ read
      cases opens with
      | free free => exact .inl free
      | leaves _ leaves => exact .inr (isLed_of_body (.inl leaves))
    case continues =>
      intro s l a t continues
      cases continues with
      | @ends body _ ends =>
        refine .other rfl ?_ (.inr (isLed_of_body (.inr ends))) ?_
        · cases body <;> rfl
        · cases body <;> exact .nil rfl
      | entry inside entry =>
        refine ⟨[(l, some (.plain l.number a))], rfl, rfl, ?_⟩
        simp only [inside]
        exact .entry (BodyLine.from_entry entry).2 .nil
      | @unread body _ inside =>
        refine ⟨[(l, some (.plain l.number (.untranslated l.text)))], rfl, rfl, ?_⟩
        simp only [inside, report]
        exact .entry (by cases body <;> rfl) .nil
    case ended =>
      intro s every none_left
      cases every <;> exact .nil rfl
    case closed =>
      intro s every l rest lines closes
      exact ⟨[(l, none)], lines, rfl, .pass (.inr (Bool.and_eq_true_iff.1 closes).2) .nil⟩
    case cons =>
      intro s every l rest first r lines _ _ _ ih ih'
      rw [lines]
      exact ih.append ih'
  exact all.lines s every

namespace Rows

theorem opened {before behind : List Statement} {st : Statement}
    (read : Rows branches last body rows)
    (listed : rows.filterMap Prod.snd = before ++ st :: behind) (entry : st.isEntry = true) :
    (∃ kind, body = some kind ∧ ∀ x ∈ before ++ [st], kind.holds x = true) ∨
      st.Opened before := by
  induction read generalizing before with
  | nil => simp at listed
  | @entry kind l a rows owned read ih =>
    cases before with
    | nil =>
      obtain ⟨rfl, -⟩ := List.cons.inj listed
      exact .inl ⟨kind, rfl, by simpa [BodyKind.holds] using owned⟩
    | cons first before =>
      obtain ⟨rfl, tail⟩ := List.cons.inj listed
      rcases ih tail with ⟨kind', same, held⟩ | ⟨kind', earlier, start, inside, rfl, found⟩
      · obtain rfl := Option.some.inj same
        exact .inl ⟨kind, rfl, List.forall_mem_cons.2 ⟨owned, held⟩⟩
      · exact .inr ⟨kind', _ :: earlier, start, inside, rfl, found⟩
  | @other body l st' rows number plain led read ih =>
    cases before with
    | nil =>
      obtain ⟨rfl, -⟩ := List.cons.inj listed
      rw [plain] at entry
      cases entry
    | cons first before =>
      obtain ⟨rfl, tail⟩ := List.cons.inj listed
      rcases ih tail with ⟨kind, starts, held⟩ | ⟨kind, earlier, start, inside, rfl, found⟩
      · exact .inr ⟨kind, [], st', before, rfl, starts, held⟩
      · exact .inr ⟨kind, st' :: earlier, start, inside, rfl, found⟩
  | pass _ _ ih => exact ih listed
  | forget _ _ ih =>
    rcases ih listed with ⟨_, none_open, -⟩ | found
    · cases none_open
    · exact .inr found

theorem number (read : Rows branches last body rows) :
    ∀ row ∈ rows, ∀ st ∈ row.2, st.line = row.1.number := by
  induction read with
  | nil => simp
  | entry _ _ ih => exact List.forall_mem_cons.2 ⟨by rintro _ ⟨⟩; rfl, ih⟩
  | other number _ _ _ ih => exact List.forall_mem_cons.2 ⟨by rintro _ ⟨⟩; exact number, ih⟩
  | pass _ _ ih => exact List.forall_mem_cons.2 ⟨nofun, ih⟩
  | forget _ _ ih => exact ih

theorem behind (read : Rows false last body (run ++ after)) :
    ∃ middle, Rows false last middle after := by
  induction run generalizing body with
  | nil => exact ⟨body, read⟩
  | cons row run ih =>
    cases read with
    | entry _ read | other _ _ _ read | pass _ read => exact ih read
    | forget all => cases all

theorem encloses (read : Rows false last (some kind) (run ++ after)) : Encloses kind run := by
  induction run with
  | nil => simp [Encloses]
  | cons row run ih =>
    intro aside
    obtain ⟨here, later⟩ := List.forall_mem_cons.1 aside
    cases read with
    | entry owned read => exact List.forall_mem_cons.2 ⟨fun _ => ⟨_, owned, rfl⟩, ih read later⟩
    | other _ _ led => exact absurd (here (led.resolve_left (by simp))).2 (by simp)
    | pass passes read =>
      refine List.forall_mem_cons.2 ⟨fun unled => ?_, ih read later⟩
      rw [isLed_of_isEndDo (passes.resolve_left (by simp))] at unled
      cases unled
    | forget all => cases all

end Rows

end Reading

theorem Program.bodies_bracketed (source : String) :
    (∀ before st after,
        Statement.listed true (ofSource source).statements = before ++ st :: after →
        st.isEntry = true → st.Opened before) ∧
      ∃ rows : List Reading.Row, rows.map Prod.fst = LogicalLine.ofSource source ∧
        rows.filterMap Prod.snd = Statement.listed false (ofSource source).statements ∧
        (∀ row ∈ rows, ∀ st ∈ row.2, st.line = row.1.number) ∧
        ∀ before opener start kind run after, start.starts? = some kind →
          rows = before ++ (opener, some start) :: (run ++ after) →
          Reading.Encloses kind run := by
  have read (branches : Bool) :=
    Reading.reads_run branches (Reading.ofLines (LogicalLine.ofSource source)) none
  simp only [Reading.Reads, Reading.lines_of_statements, List.append_nil] at read
  constructor
  · obtain ⟨rows, -, listed, read⟩ := read true
    intro before st after same entry
    rcases read.opened (listed.trans same) entry with ⟨_, none_open, -⟩ | found
    · cases none_open
    · exact found
  · obtain ⟨rows, lines, listed, read⟩ := read false
    refine ⟨rows, lines.symm, listed, read.number, ?_⟩
    rintro before opener start kind run after starts rfl
    obtain ⟨middle, here⟩ := read.behind
    cases here with
    | @entry kind' _ a _ owned => cases a <;> cases starts <;> cases kind' <;> cases owned
    | other _ _ _ read =>
      rw [starts] at read
      exact read.encloses
    | forget all => cases all

end BasicSketch
