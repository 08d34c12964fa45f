import BasicSketch.Proofs.SourceLines
import BasicSketch.Proofs.TracedStatements

set_option autoImplicit false

/-! The line map of the text of a sketch. -/

namespace BasicSketch

open Text SketchLine

inductive TextLine where
  /-- It is there whatever the statements are, or it lists what they need. -/
  | fixed (text : String)
  | header (line : SketchLine)
  | hoisted (name : String)
  | written (line : SketchLine)

namespace TextLine

def text : TextLine → String
  | .fixed text => text
  | .header line | .written line => line.render
  | .hoisted name => (Procedure.hoistedLine name).render

/-- Lines at the head of a procedure; a marker there is written as any other. -/
def ofHeader : SketchLine → TextLine
  | .marker origin depth source => .written (.marker origin depth source)
  | line => .header line

@[simp] theorem text_ofHeader (line : SketchLine) : (ofHeader line).text = line.render := by
  cases line <;> rfl

end TextLine

namespace Procedure

def textLines (p : Procedure) : List TextLine :=
  p.header.map TextLine.ofHeader ++ p.hoisted.map .hoisted ++ p.body.map .written

end Procedure

namespace Sketch

def textLines (s : Sketch) : List TextLine :=
  (s.includeLines ++ [""] ++ (if s.signatures.isEmpty then [] else s.signatures ++ [""]) ++
      (if s.usesHelpers then helperLines ++ [""] else []) ++
      if s.symbols.usesTft then ["TFT_eSPI tft;"] else []).map .fixed ++
    s.globals.map .written ++ [.fixed ""] ++
    s.procedures.flatMap (fun p => p.textLines ++ [.fixed ""]) ++
    (["void setup() \x7b", s!"    delay({s.options.startupDelay});"] ++
      if s.symbols.usesTft then ["    tft.begin();"] else []).map .fixed ++
    s.setup.map .written ++ ["\x7d", "", "void loop() \x7b"].map .fixed ++
    s.loop.map .written ++ [.fixed "\x7d"]

theorem text_textLines (s : Sketch) : s.textLines.map TextLine.text = s.unitLines := by
  have fixed (ts : List String) : (ts.map TextLine.fixed).map TextLine.text = ts := by
    simp [TextLine.text, Function.comp_def]
  have written (ls : List SketchLine) :
      (ls.map TextLine.written).map TextLine.text = ls.map SketchLine.render := by
    simp [TextLine.text, Function.comp_def]
  have procedure (p : Procedure) :
      p.textLines.map TextLine.text = p.lines.map SketchLine.render := by
    have header : (p.header.map TextLine.ofHeader).map TextLine.text =
        p.header.map SketchLine.render := by
      simp [Function.comp_def]
    have hoisted : (p.hoisted.map TextLine.hoisted).map TextLine.text =
        (p.hoisted.map Procedure.hoistedLine).map SketchLine.render := by
      simp [TextLine.text, Function.comp_def]
    simp only [Procedure.textLines, Procedure.lines, List.map_append, header, hoisted, written]
  simp only [textLines, unitLines, globalLines, setupLines, loopLines, List.map_append, fixed,
    written, List.map_flatMap, procedure, List.map_cons, List.map_nil, TextLine.text,
    List.append_assoc, List.cons_append, List.nil_append]

def shown : Nat → List TextLine → List String
  | _, [] => []
  | number, t :: rest => numberedLine number (physical t.text) :: shown (number + 1) rest

def Unmarked (text : String) : Prop := text = "" ∨ IsCode text

theorem Unmarked.flat {text : String} (unmarked : Unmarked text) : Flat text := by
  rcases unmarked with rfl | code
  · exact flat_text rfl
  · exact code.flat

inductive Mapped (known : Statement → Prop) : Option Nat → List TextLine → Prop
  | nil (last : Option Nat) : Mapped known last []
  | written {last : Option Nat} {line : SketchLine} {rest : List TextLine}
    (fits : line.Fits known last) (more : Mapped known (line.mark last) rest) :
    Mapped known last (.written line :: rest)
  | other {t : TextLine} {rest : List TextLine} (last : Option Nat)
    (unmarked : Unmarked t.text) (apart : ∀ line, t ≠ .written line)
    (more : Mapped known none rest) : Mapped known last (t :: rest)

section Mapped

variable {known : Statement → Prop}

theorem flat_render_marker (origin : Origin) (depth source : Nat) :
    Flat (SketchLine.marker origin depth source).render := by
  simp only [SketchLine.render, flat_append]
  exact ⟨⟨flat_indent depth, flat_text rfl⟩, flat_nat source⟩

variable {line : SketchLine} {texts : List String} {ls : List SketchLine}

theorem fits_of_none (fits : line.Fits known none) (last : Option Nat) : line.Fits known last := by
  cases line with
  | marker => exact fits
  | code origin depth text =>
    refine ⟨fits.1, fun st author => ?_, fits.2.2⟩
    exact absurd (fits.2.1 st author).2 (by simp)

variable {ts more : List TextLine} {last : Option Nat}

theorem Mapped.any (mapped : Mapped known none ts) (last : Option Nat) : Mapped known last ts := by
  generalize unknown : none = before at mapped
  induction mapped with
  | nil => exact .nil last
  | @written before line rest fits more ih =>
    subst unknown
    refine .written (fits_of_none fits last) ?_
    cases line with
    | marker => exact more
    | code => exact ih rfl
  | other _ unmarked apart more => exact .other last unmarked apart more

theorem Mapped.fixed (unmarked : ∀ t ∈ texts, Unmarked t) (mapped : Mapped known none more)
    (last : Option Nat) : Mapped known last (texts.map .fixed ++ more) := by
  induction texts generalizing last with
  | nil => exact mapped.any last
  | cons t rest ih =>
    exact .other last (unmarked t List.mem_cons_self) (by simp)
      (ih (fun t mem => unmarked t (List.mem_cons_of_mem _ mem)) none)

theorem Mapped.hoisted {names : List String} (flat : ∀ n ∈ names, Flat n)
    (mapped : Mapped known none more) (last : Option Nat) :
    Mapped known last (names.map .hoisted ++ more) := by
  induction names generalizing last with
  | nil => exact mapped.any last
  | cons n rest ih =>
    have code : IsCode s!"float {n} = 0;" :=
      IsCode.around (flat n List.mem_cons_self) rfl rfl
    exact .other last (Or.inr (code.indented 1)) (by simp)
      (ih (fun n mem => flat n (List.mem_cons_of_mem _ mem)) none)

theorem Mapped.header (heads : ∀ l ∈ ls, l.Heads known) (mapped : Mapped known none more)
    (last : Option Nat) : Mapped known last (ls.map TextLine.ofHeader ++ more) := by
  induction ls generalizing last with
  | nil => exact mapped.any last
  | cons l rest ih =>
    have here := heads l List.mem_cons_self
    have later := ih fun l mem => heads l (List.mem_cons_of_mem _ mem)
    cases l with
    | marker => exact .written here (later _)
    | code origin depth text =>
      exact .other last (Or.inr (here.indented depth)) (by simp [TextLine.ofHeader]) (later none)

theorem Mapped.body (traced : Traced known last ls) (mapped : Mapped known none more) :
    Mapped known last (ls.map .written ++ more) := by
  induction ls generalizing last with
  | nil => exact mapped.any last
  | cons l rest ih => exact .written traced.1 (ih traced.2)

theorem Mapped.procedures {ps : List Procedure}
    (tracked : ∀ p ∈ ps, p.Headed known ∧ (∀ n ∈ p.hoisted, Flat n) ∧ Traced known none p.body)
    (mapped : Mapped known none more) :
    Mapped known none (ps.flatMap (fun p => p.textLines ++ [.fixed ""]) ++ more) := by
  induction ps with
  | nil => exact mapped
  | cons p rest ih =>
    obtain ⟨headed, flat, traced⟩ := tracked p List.mem_cons_self
    have later := ih fun p mem => tracked p (List.mem_cons_of_mem _ mem)
    rw [List.flatMap_cons, List.append_assoc, List.append_assoc, Procedure.textLines,
      List.append_assoc, List.append_assoc]
    refine .header headed.header (.hoisted flat (.body traced ?_) none) none
    exact .other none (Or.inl rfl) (by simp) later

theorem Mapped.flat (mapped : Mapped known last ts) : ∀ t ∈ ts, Flat t.text := by
  induction mapped with
  | nil => simp
  | @written last line rest fits more ih =>
    refine List.forall_mem_cons.2 ⟨?_, ih⟩
    cases line with
    | marker origin depth source => exact flat_render_marker origin depth source
    | code origin depth text => exact (fits.1.indented depth).flat
  | other last unmarked apart more ih => exact List.forall_mem_cons.2 ⟨unmarked.flat, ih⟩

theorem unmarked_ofList {cs : List Char}
    (apart : (cs.isEmpty || !cs.contains '\n' && differs (dropBlanks cs) markerChars) = true) :
    Unmarked (String.ofList cs) := by
  rcases Bool.or_eq_true_iff.1 apart with empty | code
  · obtain rfl := List.isEmpty_iff.1 empty
    exact Or.inl rfl
  · obtain ⟨flat, differ⟩ := Bool.and_eq_true_iff.1 code
    refine Or.inr ⟨flat_ofList fun feed => ?_, ?_⟩
    · rw [List.contains_iff_mem.2 feed] at flat
      cases flat
    · rw [String.toList_ofList]
      exact differ

theorem unmarked_helperLines : ∀ t ∈ helperLines, Unmarked t := by
  simp only [helperLines, List.forall_mem_cons, String.reduceAppend]
  -- line by line, each given by its characters
  repeat refine ⟨unmarked_ofList (by decide), ?_⟩
  exact List.forall_mem_nil _

theorem unmarked_includeLines {s : Sketch} (notes : s.FlatNotes) :
    ∀ t ∈ s.includeLines, Unmarked t := by
  intro t mem
  obtain ⟨target, among, rfl⟩ := List.mem_map.1 mem
  refine Or.inr (IsCode.lead ?_ rfl)
  rcases List.mem_append.1 among with given | implied
  · rcases List.mem_append.1 given with fixed | named
    · have spelled : target = "<Arduino.h>" ∨ target = "<vector>" := by
        rcases List.mem_append.1 fixed with first | second
        · exact Or.inl (List.mem_singleton.1 first)
        · split at second
          · exact Or.inr (List.mem_singleton.1 second)
          · simp at second
      rcases spelled with rfl | rfl <;> exact flat_text rfl
    · exact notes.includes target named
  · split at implied
    · rw [List.mem_singleton.1 implied]
      exact flat_text rfl
    · simp at implied

theorem unmarked_option {c : Prop} [Decidable c] (unmarked : ∀ t ∈ texts, Unmarked t) :
    ∀ t ∈ (if c then texts else []), Unmarked t := by
  split
  · exact unmarked
  · simp

theorem mapped_textLines {s : Sketch} (tracked : s.Tracked known) :
    Mapped known none s.textLines := by
  have blank : Unmarked "" := Or.inl rfl
  have spelled {cs : List Char} (flat : '\n' ∉ cs)
      (apart : differs (dropBlanks cs) markerChars = true) : Unmarked (String.ofList cs) :=
    Or.inr (IsCode.ofList flat apart)
  have brace : Unmarked "\x7d" := spelled (by decide) (by decide)
  have first : ∀ t ∈ s.includeLines ++ [""] ++
      (if s.signatures.isEmpty then [] else s.signatures ++ [""]) ++
      (if s.usesHelpers then helperLines ++ [""] else []) ++
      (if s.symbols.usesTft then ["TFT_eSPI tft;"] else []), Unmarked t := by
    simp only [List.forall_mem_append, List.forall_mem_singleton]
    refine ⟨⟨⟨⟨unmarked_includeLines tracked.notes, blank⟩, ?_⟩, unmarked_option ?_⟩,
      unmarked_option ?_⟩
    · split
      · simp
      · exact List.forall_mem_append.2
          ⟨fun t mem => Or.inr (tracked.signatures t mem), by simpa using blank⟩
    · exact List.forall_mem_append.2 ⟨unmarked_helperLines, by simpa using blank⟩
    · exact List.forall_mem_singleton.2 (spelled (by decide) (by decide))
  have setup : ∀ t ∈ ["void setup() \x7b", s!"    delay({s.options.startupDelay});"] ++
      (if s.symbols.usesTft then ["    tft.begin();"] else []), Unmarked t := by
    have delay : Unmarked s!"    delay({s.options.startupDelay});" :=
      Or.inr (IsCode.around (flat_nat _) rfl rfl)
    simp only [List.forall_mem_append, List.forall_mem_cons]
    refine ⟨⟨spelled (by decide) (by decide), delay, by simp⟩, unmarked_option ?_⟩
    exact List.forall_mem_singleton.2 (spelled (by decide) (by decide))
  have between : ∀ t ∈ ["\x7d", "", "void loop() \x7b"], Unmarked t := by
    simp only [List.forall_mem_cons]
    exact ⟨brace, blank, spelled (by decide) (by decide), by simp⟩
  -- From the last line to the first: each part is mapped whatever comes before it.
  have ending : Mapped known none [.fixed "\x7d"] := .other none brace (by simp) (.nil none)
  have fromLoop := Mapped.fixed between (Mapped.body (tracked.buffers .loop) ending) none
  have fromSetup := Mapped.fixed setup (Mapped.body (tracked.buffers .setup) fromLoop) none
  have fromBlank : Mapped known none (.fixed "" :: _) :=
    .other none blank (by simp) (Mapped.procedures tracked.procedures fromSetup)
  have whole := Mapped.fixed first (Mapped.body (tracked.buffers .global) fromBlank) none
  simpa only [textLines, buffer, List.append_assoc, List.cons_append, List.nil_append] using whole

theorem Mapped.fits (mapped : Mapped known last ts) {k : Nat}
    (here : ts[k]? = some (.written line)) : ∃ last, line.Fits known last := by
  induction mapped generalizing k with
  | nil => simp at here
  | @written last first rest fits more ih =>
    cases k with
    | zero =>
      obtain rfl : first = line := by simpa using here
      exact ⟨last, fits⟩
    | succ k => exact ih (by simpa using here)
  | other last unmarked apart more ih =>
    cases k with
    | zero => exact absurd (by simpa using here) (apart line)
    | succ k => exact ih (by simpa using here)

end Mapped

variable {k : Nat} {known : Statement → Prop} {line : SketchLine} {st : Statement}
  {ts : List TextLine}

theorem sources_shown {last : Option Nat} (mapped : Mapped known last ts) {current : Nat}
    (agree : ∀ n ∈ last, current = n) (number : Nat) (here : ts[k]? = some (.written line))
    (author : line.origin.author = some st) :
    known st ∧ (LineMap.sourcesFrom current (shown number ts))[k]? = some st.line := by
  induction mapped generalizing current number k with
  | nil => simp at here
  | @written last first rest fits more ih =>
    have read : LineMap.markedLine? (numberedLine number (physical first.render)) =
        match first with
        | .marker _ _ source => some source
        | .code .. => none := by
      cases first with
      | marker origin depth source => exact markedLine?_marker origin depth number fits.1
      | code origin depth text => exact markedLine?_code fits.1 depth number
    simp only [shown, LineMap.sourcesFrom, TextLine.text, read]
    cases k with
    | zero =>
      obtain rfl : first = line := by simpa using here
      cases first with
      | marker origin depth source =>
        obtain ⟨isKnown, same⟩ := fits.2 st author
        exact ⟨isKnown, by simp [same]⟩
      | code origin depth text =>
        obtain ⟨isKnown, same⟩ := fits.2.1 st author
        exact ⟨isKnown, by simp [agree st.line same]⟩
    | succ k =>
      refine ih ?_ (number + 1) (by simpa using here)
      cases first with
      | marker origin depth source => simp [mark]
      | code origin depth text => simpa [mark] using agree
  | other last unmarked apart more ih =>
    cases k with
    | zero => exact absurd (by simpa using here) (apart line)
    | succ k =>
      simp only [shown, LineMap.sourcesFrom, List.getElem?_cons_succ]
      exact ih (fun n before => absurd before (by simp)) (number + 1) (by simpa using here)

theorem shown_eq_mapIdx (number : Nat) (ts : List TextLine) :
    shown number ts = ts.mapIdx fun k t => numberedLine (number + k) (physical t.text) := by
  induction ts generalizing number with
  | nil => rfl
  | cons t rest ih =>
    rw [shown, ih, List.mapIdx_cons]
    simp [Nat.add_assoc, Nat.add_comm 1]

theorem flat_shown (flat : ∀ t ∈ ts, Flat t.text) (number : Nat) :
    ∀ l ∈ shown number ts, Flat l := by
  induction ts generalizing number with
  | nil => simp [shown]
  | cons t rest ih =>
    intro l mem
    rcases List.mem_cons.1 mem with here | later
    · rw [here]
      exact flat_numberedLine number (flat_physical (flat t List.mem_cons_self))
    · exact ih (fun t mem => flat t (List.mem_cons_of_mem _ mem)) (number + 1) l later

theorem physical_shown (number : Nat) (ts : List TextLine) :
    (shown number ts).map physical = shown number ts := by
  induction ts generalizing number with
  | nil => rfl
  | cons t rest ih => rw [shown, List.map_cons, physical_numberedLine, ih]

variable {s : Sketch}

theorem render_eq (flat : ∀ t ∈ s.textLines, Flat t.text) :
    s.render = unlines (shown 1 s.textLines) := by
  have flatUnits : ∀ l ∈ s.unitLines, Flat l := by
    rw [← text_textLines]
    simpa using flat
  have units : lines (unlines s.unitLines) = s.textLines.map fun t => physical t.text := by
    rw [lines_unlines flatUnits, ← text_textLines, List.map_map]
    rfl
  have numbered : ((lines (unlines s.unitLines)).mapIdx fun k line => numberedLine (k + 1) line) =
      shown 1 s.textLines := by
    apply List.ext_getElem?
    simp [units, shown_eq_mapIdx, Nat.add_comm, Function.comp_def]
  rw [render, numberLines, numbered]

theorem lines_render (flat : ∀ t ∈ s.textLines, Flat t.text) :
    lines s.render = shown 1 s.textLines := by
  rw [render_eq flat, lines_unlines (flat_shown flat 1), physical_shown]

theorem sourceLine_render (tracked : s.Tracked known)
    (here : s.textLines[k]? = some (.written line)) (author : line.origin.author = some st) :
    known st ∧ (LineMap.ofText s.render).sourceLine (k + 1) = st.line := by
  have mapped := mapped_textLines tracked
  obtain ⟨isKnown, source⟩ :=
    sources_shown mapped (fun n before => absurd before (by simp)) 1 here author
  refine ⟨isKnown, ?_⟩
  rw [LineMap.sourceLine, LineMap.ofText, lines_render mapped.flat, Nat.add_sub_cancel, source]
  rfl

end Sketch

namespace Statement

mutual

theorem line_mem_bodyNumbers :
    ∀ (st other : Statement), other ∈ st.inside → other.line ∈ st.bodyNumbers
  | .every _ _ body, other, mem => line_mem_numbers body other mem
  | .plain .., _, mem | .inlineIf .., _, mem | .inlineIfElse .., _, mem =>
    absurd mem List.not_mem_nil

theorem line_mem_numbers :
    ∀ (sts : List Statement) (st : Statement), st ∈ listing sts → st.line ∈ numbers sts
  | [], _, mem => absurd mem List.not_mem_nil
  | first :: rest, st, mem => by
    rw [numbers]
    rcases List.mem_cons.1 mem with rfl | among
    · exact List.mem_cons_self
    · rcases List.mem_append.1 among with inside | later
      · exact List.mem_cons_of_mem _ (List.mem_append_left _ (line_mem_bodyNumbers first st inside))
      · exact List.mem_cons_of_mem _ (List.mem_append_right _ (line_mem_numbers rest st later))

end

theorem line_le_of_mem_listing {source : String} {st : Statement}
    (mem : st ∈ listing (Program.ofSource source).statements) :
    st.line ≤ (lines source).length := by
  obtain ⟨taken, all, account⟩ :=
    Reading.takes_run.lines (Reading.ofLines (LogicalLine.ofSource source)) none
  rw [Reading.lines_of_statements, List.append_nil] at all
  have numbered := line_mem_numbers _ st mem
  have among : st.line ∈ Reading.numbersWith (· == .statement) taken _ :=
    account.listed.symm ▸ numbered
  obtain ⟨p, kept, same⟩ := List.mem_map.1 among
  obtain ⟨taking, -⟩ := List.of_mem_zip (List.mem_filter.1 kept).1
  rw [← same]
  rw [← all] at taking
  exact LogicalLine.number_le_of_mem_ofSource taking

end Statement

theorem code_ofSource (options : Options) (source : String) :
    (Output.ofSource options source).code =
      (Sketch.ofStatements options (Program.ofSource source).statements).render := by
  simp only [Output.ofSource, Output.ofProgram]

/-- A line that was written for a statement belongs to the source line of that statement. -/
theorem written_line_traced (options : Options) (source : String)
    (short : (Text.lines source).length ≤ Text.maxLong) :
    let statements := (Program.ofSource source).statements
    let sketch := Sketch.ofStatements options statements
    let code := (Output.ofSource options source).code
    Text.lines code = (sketch.textLines.mapIdx fun k t =>
        Sketch.numberedLine (k + 1) (Text.physical t.text)) ∧
      ∀ k line, sketch.textLines[k]? = some (.written line) →
        (∀ st, line.origin.author = some st →
          st ∈ Statement.listing statements ∧
            (LineMap.ofText code).sourceLine (k + 1) = st.line) ∧
        (line.origin.author = none →
          ∀ origin depth text, line = .code origin depth text → text = "\x7d") := by
  rw [code_ofSource]
  intro statements sketch code
  have tracked : sketch.Tracked (· ∈ Statement.listing statements) :=
    Sketch.tracked_ofStatements options (clean_ofSource source) (fun _ => id)
      fun st mem => Nat.le_trans (Statement.line_le_of_mem_listing mem) short
  have mapped := Sketch.mapped_textLines tracked
  refine ⟨?_, fun k line here => ⟨fun st author => ?_, fun nobody origin depth text code => ?_⟩⟩
  · rw [Sketch.lines_render mapped.flat, Sketch.shown_eq_mapIdx]
    simp only [Nat.add_comm 1]
  · exact Sketch.sourceLine_render tracked here author
  · rw [code] at here nobody
    obtain ⟨last, fits⟩ := mapped.fits here
    exact fits.2.2 nobody

theorem written_line_traced_every :
    let source := "Every 5 Do\n  x = 1: y = 2\n  If x = 1 Then x = 2 _\n    Else y = 1\nEnd Do"
    let statements := (Program.ofSource source).statements
    let sketch := Sketch.ofStatements Options.standard statements
    (Text.lines source).length ≤ Text.maxLong ∧
      ∀ k line st, sketch.textLines[k]? = some (.written line) → line.origin.author = some st →
        st ∈ Statement.listing statements ∧
          (LineMap.ofText (Output.ofSource Options.standard source).code).sourceLine (k + 1) =
            st.line := by
  intro source statements sketch
  have short : (Text.lines source).length ≤ Text.maxLong := by decide
  exact ⟨short, fun k line st here author =>
    ((written_line_traced Options.standard source short).2 k line here).1 st author⟩

end BasicSketch
