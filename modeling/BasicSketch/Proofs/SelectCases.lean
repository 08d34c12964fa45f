import BasicSketch.Proofs.DecimalTexts
import BasicSketch.Proofs.TwoWritings

set_option autoImplicit false

/-! Cases of a `Select Case`. -/

namespace BasicSketch

open Text

namespace Word

def signed? (n : Int) : Option Int := if minSigned ≤ n ∧ n ≤ maxSigned then some n else none

def labels : (count : Nat) → (first : Int) → Option (List String)
  | 0, first => some [s!"case {first}:"]
  | count + 1, first => do
    let next ← signed? (first + 1)
    return s!"case {first}:" :: (← labels count next)

/-- The labels of a range; one whose length is no number of 64 bits is not written out. -/
def rangeLabels (low high : Expr) : Option (Option (List String)) :=
  match low.integer?, high.integer? with
  | some first, some last =>
    match signed? (last - first) with
    | some span =>
      if 0 ≤ span ∧ span < Sketch.maxExpandedRange then (labels span.toNat first).map some
      else some none
    | none => some none
  | _, _ => some none

theorem signed_of_integer? {e : Expr} {n : Int} (read : e.integer? = some n) :
    minSigned ≤ n ∧ n ≤ maxSigned := by
  unfold Expr.integer? at read
  split at read
  · cases read
  · have within := (Option.filter_eq_some_iff.1 read).2
    simpa using within

theorem labels_eq {count : Nat} {first : Int} (low : minSigned ≤ first)
    (high : first + count ≤ maxSigned) :
    labels count first =
      some ((List.range (count + 1)).map fun k => s!"case {first + Int.ofNat k}:") := by
  induction count generalizing first with
  | zero => simp [labels]
  | succ count ih =>
    -- the labels behind the first are those of the range that begins one later
    have fits : signed? (first + 1) = some (first + 1) := if_pos ⟨by omega, by omega⟩
    have shift (k : Nat) : first + 1 + Int.ofNat k = first + Int.ofNat (k + 1) := by
      simp only [Int.ofNat_eq_natCast]
      omega
    have later := @ih (first + 1) (by omega) (by omega)
    simp only [shift] at later
    have here : first + Int.ofNat 0 = first := Int.add_zero first
    rw [labels, fits, List.range_succ_eq_map, List.map_cons, List.map_map, here]
    simp only [Option.bind_eq_bind, Option.bind_some, later]
    rfl

theorem rangeLabels_eq (low high : Expr) :
    rangeLabels low high = some (Sketch.rangeLabels? low high) := by
  unfold rangeLabels Sketch.rangeLabels?
  cases readLow : low.integer? with
  | none => rfl
  | some first =>
    cases readHigh : high.integer? with
    | none => rfl
    | some last =>
      have least := (signed_of_integer? readLow).1
      have most := (signed_of_integer? readHigh).2
      by_cases few : 0 ≤ last - first ∧ last - first < Sketch.maxExpandedRange
      · have fits : signed? (last - first) = some (last - first) := by
          refine if_pos ⟨Int.le_trans (by decide) few.1, ?_⟩
          exact Int.le_trans (Int.le_of_lt few.2) (by decide)
        have ends : first + ((last - first).toNat : Int) ≤ maxSigned := by omega
        simp only [fits, few, and_self, if_true, labels_eq least ends, decide_true, Bool.and_self,
          Option.map_some, Option.bind_eq_bind, Option.bind_some]
      · have many : (decide (0 ≤ last - first) &&
            decide (last - first < Sketch.maxExpandedRange)) = false := by simpa using few
        simp only [Option.bind_eq_bind, Option.bind_some, many, Bool.false_eq_true, if_false]
        unfold signed?
        split
        · rename_i span fits
          split at fits
          · obtain rfl := Option.some.inj fits
            rw [if_neg few]
          · cases fits
        · rfl

end Word

structure CaseGroup where
  line : Nat
  /-- The values it is for, none for `Case Else`. -/
  values : Option (List CaseValue)
  body : List Statement

namespace CaseGroup

def first (g : CaseGroup) : Statement :=
  .plain g.line (match g.values with
    | some values => .caseOf values
    | none => .caseElse)

def statements (g : CaseGroup) : List Statement := g.first :: g.body

def labels (g : CaseGroup) (s : Sketch) : List String :=
  match g.values with
  | some values => values.flatMap s.caseLabels
  | none => ["default:"]

end CaseGroup

def selectBlock (n : Nat) (subject : Expr) (groups : List CaseGroup) (m : Nat) : List Statement :=
  .plain n (.select subject) :: (groups.flatMap CaseGroup.statements ++ [.plain m .endSelect])

namespace Sketch

def leaving (inCase : Bool) : List String := if inCase then ["break;"] else []

variable {s : Sketch} {text : String} {inCase : Bool} {below : List Block}

theorem codeHere_labels {labels : List String} (tight : ∀ text ∈ labels, trim text = text)
    (s : Sketch) :
    (labels.foldl emitOutdented s).codeHere = s.codeHere ++ labels ∧
      (labels.foldl emitOutdented s).blocks = s.blocks := by
  induction labels generalizing s with
  | nil => exact ⟨(List.append_nil _).symm, rfl⟩
  | cons text labels ih =>
    obtain ⟨here, others⟩ := List.forall_mem_cons.1 tight
    obtain ⟨code, blocks⟩ := ih others (s.emitOutdented text)
    rw [List.foldl_cons, code, blocks]
    refine ⟨?_, by simp [emitOutdented]⟩
    rw [emitOutdented, codeHere_push here, List.append_assoc, List.singleton_append]

theorem tight_caseLabel {v : CaseValue} (mem : text ∈ s.caseLabels v) : trim text = text := by
  have label := mem_caseLabels mem
  have case {value : String} : trim ("case " ++ value ++ ":") = "case " ++ value ++ ":" :=
    tight_of_ends (((begins_ofList rfl).append _).append _) ((ends_ofList rfl).after _)
      (by decide) (by decide)
  cases v with
  | value v =>
    rw [label, toString_text]
    exact case
  | range low high =>
    rcases label with ⟨n, rfl⟩ | rfl
    · exact case
    · simp only [toString_text, String.append_assoc]
      have whole := @case (s.value low ++ (" ... " ++ s.value high))
      simpa only [String.append_assoc] using whole
  | comparison operator v =>
    rw [label]
    exact tight_of_ends (((((begins_ofList rfl).append _).append _).append _).append _)
      ((ends_ofList rfl).after _) (by decide) (by decide)

theorem codeHere_statement (s : Sketch) (st : Statement) :
    (s.statements [st]).codeHere = ((s.facing st).place st).codeHere := rfl

theorem codeHere_select (s : Sketch) (n : Nat) (subject : Expr) :
    (s.statements [.plain n (.select subject)]).codeHere =
        s.codeHere ++ [s!"switch ({s.value subject}) \x7b"] ∧
      (s.statements [.plain n (.select subject)]).blocks = .select false :: s.blocks := by
  have tight : trim s!"switch ({s.value subject}) \x7b" = s!"switch ({s.value subject}) \x7b" :=
    tight_of_ends (((begins_ofList rfl).append _).append _) ((ends_ofList rfl).after _)
      (by decide) (by decide)
  have written := codeHere_push tight (s.facing (.plain n (.select subject))) s.depth
  refine ⟨?_, ?_⟩
  · rw [codeHere_statement]
    exact written
  · rw [blocks_statement]
    simp [place, perform, openBlock, emit, facing, start]

theorem tight_break : trim "break;" = "break;" := by decide +kernel

theorem codeHere_enterCase (blocks : s.blocks = .select inCase :: below) :
    s.enterCase.codeHere = s.codeHere ++ leaving inCase ∧
      s.enterCase.blocks = .select true :: below := by
  rw [enterCase_inside blocks]
  cases inCase with
  | false => exact ⟨(List.append_nil _).symm, rfl⟩
  | true =>
    have written := codeHere_push tight_break { s with blocks := .select true :: below }
    exact ⟨written _, by simp [emit]⟩

theorem codeHere_case {g : CaseGroup} (blocks : s.blocks = .select inCase :: below) :
    (s.statements [g.first]).codeHere = s.codeHere ++ (leaving inCase ++ g.labels s) ∧
      (s.statements [g.first]).blocks = .select true :: below := by
  obtain ⟨left, entered⟩ := @codeHere_enterCase (s.facing g.first) inCase below blocks
  have place : (s.facing g.first).place g.first =
      (g.labels s).foldl emitOutdented (s.facing g.first).enterCase := by
    obtain ⟨line, values, body⟩ := g
    cases values with
    | none => rfl
    | some values => rfl
  have tight : ∀ text ∈ g.labels s, trim text = text := by
    intro text mem
    unfold CaseGroup.labels at mem
    split at mem
    · obtain ⟨v, -, label⟩ := List.mem_flatMap.1 mem
      exact tight_caseLabel label
    · rw [List.mem_singleton.1 mem]
      decide +kernel
  obtain ⟨written, kept⟩ := codeHere_labels tight (s.facing g.first).enterCase
  rw [codeHere_statement, blocks_statement, place, written, left, kept, entered, List.append_assoc]
  exact ⟨rfl, rfl⟩

theorem codeHere_endSelect (n : Nat) (blocks : s.blocks = .select inCase :: below) :
    (s.statements [.plain n .endSelect]).codeHere = s.codeHere ++ (leaving inCase ++ ["\x7d"]) ∧
      (s.statements [.plain n .endSelect]).blocks = below := by
  generalize facing : s.facing (.plain n .endSelect) = f
  have open_ : f.blocks = .select inCase :: below := by rw [← facing]; exact blocks
  have code : f.codeHere = s.codeHere := by rw [← facing]; rfl
  -- the last case is left, if there is one
  obtain ⟨t, eq, left, kept⟩ : ∃ t,
      (if f.blocks.head? == some (.select true) then f.emit "break;" else f) = t ∧
        t.codeHere = f.codeHere ++ leaving inCase ∧ t.blocks = f.blocks := by
    rw [open_]
    cases inCase with
    | false => exact ⟨f, rfl, (List.append_nil _).symm, open_⟩
    | true => exact ⟨_, rfl, codeHere_push tight_break f f.depth, by simp [emit, open_]⟩
  obtain ⟨rest, events, closing, closes⟩ := closeBlock_eq t (.select false) "\x7d"
  obtain ⟨rfl, -⟩ := closes _ _ (kept.trans open_) rfl
  have place : f.place (.plain n .endSelect) = { t with blocks := rest, events }.emit "\x7d" := by
    rw [← closing, ← eq]
    rfl
  have closed := codeHere_push (show trim "\x7d" = "\x7d" by decide +kernel)
    { t with blocks := rest, events }
  rw [codeHere_statement, blocks_statement, facing, place, ← code, ← List.append_assoc, ← left]
  exact ⟨closed _, by simp [emit]⟩

theorem codeHere_nested {sts : List Statement} (nested : Nested .sequence sts) (s : Sketch) :
    (∃ code, (s.statements sts).codeHere = s.codeHere ++ code) ∧
      (s.statements sts).blocks = s.blocks := by
  obtain ⟨own, grows, blocks⟩ := (nested_disciplined nested).stays s
  refine ⟨?_, blocks⟩
  -- in a branch of a single-line `If` the code is what is collected, and elsewhere a buffer
  cases capturing : s.capture with
  | some texts =>
    obtain ⟨-, more, adds, -⟩ := Beside.statements (s := s) (c := s) rfl sts
    refine ⟨more, ?_⟩
    rw [codeHere, codeHere, adds.capture, capturing]
    rfl
  | none =>
    have writing : (s.statements sts).capture = none := by
      simpa [capturing] using grows.capture
    obtain ⟨new, written, -⟩ := grows.buffers (s.landing s.scope)
    refine ⟨SketchLine.codes new, ?_⟩
    rw [codeHere, codeHere, writing, capturing, grows.landing, written]
    simp [SketchLine.codes]

/-- How the cases are written one after the other. -/
inductive WritesCases : Sketch → List CaseGroup → List (List String × List String) → Prop
  | done (s : Sketch) : WritesCases s [] []
  | case {s : Sketch} {g : CaseGroup} {groups : List CaseGroup} {code : List String}
    {parts : List (List String × List String)}
    (body : ((s.statements [g.first]).statements g.body).codeHere =
      (s.statements [g.first]).codeHere ++ code)
    (after : WritesCases ((s.statements [g.first]).statements g.body) groups parts) :
    WritesCases s (g :: groups) ((g.labels s, code) :: parts)

theorem codeHere_cases {groups : List CaseGroup}
    (nested : ∀ g ∈ groups, Nested .sequence g.body) (m : Nat) {s : Sketch} {inCase : Bool}
    (blocks : s.blocks = .select inCase :: below) :
    let s' := s.statements (groups.flatMap CaseGroup.statements ++ [.plain m .endSelect])
    s'.blocks = below ∧ ∃ parts, WritesCases s groups parts ∧
      s'.codeHere = s.codeHere ++ (leaving inCase ++
        (parts.flatMap (fun part => part.1 ++ part.2 ++ ["break;"]) ++ ["\x7d"])) := by
  intro s'
  -- on the cases: each writes the line that leaves the one before it, so that the flag on top of
  -- the blocks is false for the first case only
  induction groups generalizing s inCase with
  | nil =>
    obtain ⟨code, closed⟩ := codeHere_endSelect m blocks
    exact ⟨closed, [], .done s, code⟩
  | cons g groups ih =>
    obtain ⟨here, others⟩ := List.forall_mem_cons.1 nested
    obtain ⟨begun, entered⟩ := codeHere_case (g := g) blocks
    obtain ⟨⟨code, written⟩, kept⟩ := codeHere_nested here (s.statements [g.first])
    obtain ⟨closed, parts, cases, behind⟩ := ih others (kept.trans entered)
    have split : s' = ((s.statements [g.first]).statements g.body).statements
        (groups.flatMap CaseGroup.statements ++ [.plain m .endSelect]) := by
      rw [← statements_append, ← statements_cons]
      simp [s', CaseGroup.statements]
    refine ⟨by rw [split]; exact closed, _, .case written cases, ?_⟩
    rw [split, behind, written, begun]
    simp [leaving]

theorem WritesCases.length {groups : List CaseGroup} {parts : List (List String × List String)}
    (cases : WritesCases s groups parts) : parts.length = groups.length := by
  induction cases with
  | done => rfl
  | case _ _ ih => rw [List.length_cons, List.length_cons, ih]

theorem rangeLabels?_few {low high : Expr} {a b : Int} (first : low.integer? = some a)
    (last : high.integer? = some b) (few : 0 ≤ b - a ∧ b - a < maxExpandedRange) :
    ∃ ns : List Int, ns.Pairwise (· < ·) ∧ (∀ k, k ∈ ns ↔ a ≤ k ∧ k ≤ b) ∧
      rangeLabels? low high = some (ns.map fun k => s!"case {k}:") := by
  refine ⟨(List.range ((b - a).toNat + 1)).map fun k => a + Int.ofNat k, ?_, fun k => ?_, ?_⟩
  · refine List.pairwise_map.2 (List.pairwise_lt_range.imp fun less => ?_)
    simpa using less
  · simp only [List.mem_map, List.mem_range]
    constructor
    · rintro ⟨i, inside, rfl⟩
      simp only [Int.ofNat_eq_natCast]
      omega
    · rintro ⟨least, most⟩
      exact ⟨(k - a).toNat, by omega, by simp only [Int.ofNat_eq_natCast]; omega⟩
  · have within : (decide (0 ≤ b - a) && decide (b - a < maxExpandedRange)) = true := by
      simpa using few
    simp only [rangeLabels?, first, last, Option.bind_eq_bind, Option.bind_some, within, if_true,
      List.map_map]
    rfl

theorem rangeLabels?_many {low high : Expr} {a b : Int} (first : low.integer? = some a)
    (last : high.integer? = some b) (many : ¬(0 ≤ b - a ∧ b - a < maxExpandedRange)) :
    rangeLabels? low high = none := by
  simp [rangeLabels?, first, last]
  omega

end Sketch

theorem nested_selectBlock {groups : List CaseGroup}
    (nested : ∀ g ∈ groups, Nested .sequence g.body) (n m : Nat) (subject : Expr) :
    Nested .sequence (selectBlock n subject groups m) := by
  refine .select n subject ?_
  induction groups with
  | nil => exact .endSelect m
  | cons g groups ih =>
    obtain ⟨here, others⟩ := List.forall_mem_cons.1 nested
    have behind := ih others
    obtain ⟨line, values, body⟩ := g
    rw [List.flatMap_cons, List.append_assoc]
    cases values with
    | none => exact .caseElse line here behind
    | some values => exact .caseOf line values here behind

/-- A `Select Case` is written as a `switch` that never falls through. -/
theorem select_never_falls_through {groups : List CaseGroup}
    (nested : ∀ g ∈ groups, Nested .sequence g.body) (s : Sketch) (n m : Nat) (subject : Expr) :
    let s' := s.statements (selectBlock n subject groups m)
    (s'.scope = s.scope ∧ s'.blocks = s.blocks ∧
      ∃ parts, parts.length = groups.length ∧
        Sketch.WritesCases (s.statements [.plain n (.select subject)]) groups parts ∧
        s'.codeHere = s.codeHere ++ (s!"switch ({s.value subject}) \x7b" ::
          (parts.flatMap (fun part => part.1 ++ part.2 ++ ["break;"]) ++ ["\x7d"]))) ∧
    ∀ t : Sketch, (∀ v, t.caseLabels (.value v) = [s!"case {t.value v}:"]) ∧
      (∀ operator v, t.caseLabels (.comparison operator v) =
        [s!"// Case Is {operator} {t.value v} (not supported)"]) ∧
      ∀ low high a b, low.integer? = some a → high.integer? = some b →
        Word.rangeLabels low high = some (Sketch.rangeLabels? low high) ∧
        if 0 ≤ b - a ∧ b - a < 256 then
          ∃ ns : List Int, ns.Pairwise (· < ·) ∧ (∀ k, k ∈ ns ↔ a ≤ k ∧ k ≤ b) ∧
            t.caseLabels (.range low high) = ns.map fun k => s!"case {k}:"
        else t.caseLabels (.range low high) = [s!"case {low.text} ... {high.text}:"] := by
  intro s'
  refine ⟨?_, fun t => ⟨fun v => rfl, fun operator v => rfl, ?_⟩⟩
  · obtain ⟨own, grows, blocks⟩ :=
      (Sketch.nested_disciplined (nested_selectBlock nested n m subject)).stays s
    obtain ⟨switch, opened⟩ := Sketch.codeHere_select s n subject
    obtain ⟨-, parts, cases, behind⟩ := Sketch.codeHere_cases nested m opened
    refine ⟨grows.scope, blocks, parts, cases.length, cases, ?_⟩
    have split : s' = (s.statements [.plain n (.select subject)]).statements
        (groups.flatMap CaseGroup.statements ++ [.plain m .endSelect]) := Sketch.statements_cons ..
    rw [split, behind, switch, List.append_assoc]
    rfl
  · intro low high a b first last
    refine ⟨Word.rangeLabels_eq low high, ?_⟩
    split
    · rename_i few
      obtain ⟨ns, increasing, members, labels⟩ := Sketch.rangeLabels?_few first last few
      exact ⟨ns, increasing, members, by rw [Sketch.caseLabels, labels, Option.getD_some]⟩
    · rename_i many
      rw [Sketch.caseLabels, Sketch.rangeLabels?_many first last many, Option.getD_none,
        Sketch.value_decimal (isDecimal_of_integer? first),
        Sketch.value_decimal (isDecimal_of_integer? last)]

theorem select_never_falls_through_nested :
    let inner := selectBlock 3 ⟨"w"⟩ [⟨4, none, [.plain 5 .exitLoop]⟩] 6
    let groups : List CaseGroup :=
      [⟨2, some [.range ⟨"-1"⟩ ⟨"1"⟩, .comparison ">" ⟨"9"⟩], inner⟩, ⟨7, none, []⟩]
    let subject : Expr := ⟨"v"⟩
    let s := { Sketch.empty .standard with scope := .loop }
    let s' := s.statements (selectBlock 1 subject groups 8)
    (∀ g ∈ groups, Nested .sequence g.body) ∧ s'.blocks = [] ∧
      (∃ parts : List (List String × List String), parts.length = 2 ∧
        s'.codeHere = "switch (v) \x7b" ::
          (parts.flatMap (fun part => part.1 ++ part.2 ++ ["break;"]) ++ ["\x7d"])) ∧
      s'.codeHere = ["switch (v) \x7b", "case -1:", "case 0:", "case 1:",
        "// Case Is > 9 (not supported)", "switch (w) \x7b", "default:", "break;", "break;", "\x7d",
        "break;", "default:", "break;", "\x7d"] := by
  intro inner groups subject s s'
  have nested : ∀ g ∈ groups, Nested .sequence g.body := by
    have within : Nested .sequence inner := nested_selectBlock (by
      simpa using Nested.one (.plain 5 rfl)) 3 6 ⟨"w"⟩
    simpa [groups] using ⟨within, Nested.nil⟩
  obtain ⟨-, blocks, parts, length, -, code⟩ := (select_never_falls_through nested s 1 8 subject).1
  have switch : s!"switch ({s.value subject}) \x7b" = "switch (v) \x7b" := by decide +kernel
  rw [switch] at code
  exact ⟨nested, blocks, ⟨parts, length, code⟩, by decide +kernel⟩

end BasicSketch
