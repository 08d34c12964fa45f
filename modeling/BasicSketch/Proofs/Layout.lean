import BasicSketch.Proofs.SketchRenumbering
import BasicSketch.Proofs.Traceability

set_option autoImplicit false

/-! Blank lines in the source. -/

namespace BasicSketch

open Text

namespace LogicalLine

def movedBehind (before number : Nat) : Nat := if before < number then number + 1 else number

theorem join_blank {blank : String} (isBlank : trim (stripComment blank) = "") (number : Nat)
    (rest : List String) : join number none (blank :: rest) = join (number + 1) none rest := by
  have ends : continued? "" = none := by decide
  have nothing : finish number "" = [] := rfl
  rw [join_cons]
  simp only [extended, isBlank, ends, nothing, List.nil_append]

theorem ofSource_blank {source source' : String} {before after : List String} {blank : String}
    (lines : Text.lines source = before ++ after)
    (inserted : Text.lines source' = before ++ blank :: after)
    (isBlank : trim (stripComment blank) = "") (boundary : pendingAfter 1 none before = none) :
    ofSource source' = (ofSource source).map (renumber (movedBehind before.length)) := by
  have early : (join 1 none before).map (renumber (movedBehind before.length)) =
      join 1 none before := by
    refine (List.map_congr_left fun l mem => ?_).trans (List.map_id _)
    have below := number_lt_of_mem_join (by simp) mem
    rw [renumber, movedBehind, if_neg (by omega)]
    rfl
  have late : (join (1 + before.length) none after).map (renumber (movedBehind before.length)) =
      join (1 + before.length + 1) none after := by
    refine (List.map_congr_left fun l mem => ?_).trans
      (join_shift 1 (1 + before.length) none after).symm
    have above : 1 + before.length ≤ l.number :=
      @firstNumber_le_of_mem_join _ _ none _ (Nat.le_refl _) mem
    rw [renumber, renumber, movedBehind, if_pos (by omega)]
  rw [ofSource, ofSource, lines, inserted, join_append boundary, join_append boundary,
    join_blank isBlank, List.map_append, early, late]

end LogicalLine

def renumberMarker (f : Nat → Nat) (line : String) : String :=
  match markerChars.isPrefixOf? (dropBlanks line.toList) with
  | some rest =>
    String.ofList (line.toList.takeWhile isBlank ++ markerChars ++
      (toString (f (digitsValue (rest.takeWhile Char.isDigit)))).toList ++
      rest.dropWhile Char.isDigit)
  | none => line

namespace Sketch

theorem renumberMarker_marker (f : Nat → Nat) (origin origin' : Origin)
    (depth number source : Nat) :
    renumberMarker f
        (numberedLine number (physical (SketchLine.marker origin depth source).render)) =
      numberedLine number (physical (SketchLine.marker origin' depth (f source)).render) := by
  have blanks (tail : List Char) :
      ((SketchLine.indent depth).toList ++ (markerChars ++ tail)).takeWhile isBlank =
        (SketchLine.indent depth).toList := by
    rw [List.takeWhile_append_of_pos]
    · exact List.append_nil _
    · intro c mem
      rw [SketchLine.indent, String.toList_ofList] at mem
      rw [List.eq_of_mem_replicate mem]
      decide
  have digits := isDigit_of_mem_nat source
  apply String.toList_injective
  rw [renumberMarker, toList_numbered_marker, toList_numbered_marker, dropBlanks_indent,
    dropBlanks_marker, isPrefixOf?_append]
  dsimp only
  rw [blanks, List.takeWhile_append_of_pos digits, List.dropWhile_append_of_pos digits,
    List.takeWhile_cons_of_neg (by decide), List.dropWhile_cons_of_neg (by decide),
    List.append_nil, digitsValue_nat, String.toList_ofList]
  simp only [List.append_assoc]

theorem renumberMarker_unmarked (f : Nat → Nat) {line : String} (unmarked : Unmarked line)
    (number : Nat) :
    renumberMarker f (numberedLine number (physical line)) =
      numberedLine number (physical line) := by
  have apart : differs (dropBlanks (numberedLine number (physical line)).toList) markerChars =
      true := by
    rcases unmarked with rfl | code
    · exact differs_numberLabel number
    · exact differs_numberedLine code number
  rw [renumberMarker, isPrefixOf?_of_differs apart]

theorem hasPart_of_not_mem {part cs : List Char} {c : Char} (inPart : c ∈ part) (absent : c ∉ cs) :
    hasPart part cs = false := by
  induction cs with
  | nil => simpa [hasPart] using List.ne_nil_of_mem inPart
  | cons d rest ih =>
    have later := ih fun mem => absent (List.mem_cons_of_mem d mem)
    have here : part.isPrefixOf (d :: rest) = false := by
      refine Bool.eq_false_iff.2 fun isPart => absent ?_
      exact (List.isPrefixOf_iff_prefix.1 isPart).subset inPart
    rw [hasPart, here, later]
    rfl

theorem contains_marker (origin : Origin) (depth source : Nat) :
    contains (SketchLine.marker origin depth source).render "__vb_" = false := by
  refine @hasPart_of_not_mem _ _ 'v' (by decide) ?_
  simp only [SketchLine.render, SketchLine.indent, String.toList_append, String.toList_ofList,
    List.mem_append, List.mem_replicate, not_or]
  refine ⟨⟨by simp, by decide⟩, fun mem => ?_⟩
  exact absurd (isDigit_of_mem_nat source _ mem) (by decide)

end Sketch

namespace TextLine

variable (f : Nat → Nat)

def renumber : TextLine → TextLine
  | .fixed text => .fixed text
  | .header line => .header (line.renumber f)
  | .hoisted name => .hoisted name
  | .written line => .written (line.renumber f)

def IsPlain : TextLine → Prop
  | .header (.marker ..) | .written (.marker ..) => True
  | t => Sketch.Unmarked t.text

theorem isPlain_renumber (t : TextLine) : (t.renumber f).IsPlain ↔ t.IsPlain := by
  cases t with
  | fixed text => exact Iff.rfl
  | hoisted name => exact Iff.rfl
  | header line | written line => cases line <;> exact Iff.rfl

theorem IsPlain.flat {t : TextLine} (plain : t.IsPlain) : Flat t.text := by
  cases t with
  | fixed text => exact Sketch.Unmarked.flat plain
  | hoisted name => exact Sketch.Unmarked.flat plain
  | header line | written line =>
    cases line with
    | marker origin depth source => exact Sketch.flat_render_marker origin depth source
    | code origin depth text => exact Sketch.Unmarked.flat plain

theorem IsPlain.renumberMarker {t : TextLine} (plain : t.IsPlain) (number : Nat) :
    renumberMarker f (Sketch.numberedLine number (physical t.text)) =
      Sketch.numberedLine number (physical (t.renumber f).text) := by
  cases t with
  | fixed text => exact Sketch.renumberMarker_unmarked f plain number
  | hoisted name => exact Sketch.renumberMarker_unmarked f plain number
  | header line | written line =>
    cases line with
    | marker origin depth source =>
      exact Sketch.renumberMarker_marker f origin (origin.renumber f) depth number source
    | code origin depth text => exact Sketch.renumberMarker_unmarked f plain number

end TextLine

namespace Sketch

theorem shown_renumber (f : Nat → Nat) {ts : List TextLine} (plain : ∀ t ∈ ts, t.IsPlain)
    (number : Nat) :
    shown number (ts.map (.renumber f)) = (shown number ts).map (renumberMarker f) := by
  induction ts generalizing number with
  | nil => rfl
  | cons t rest ih =>
    rw [List.map_cons, shown, shown, List.map_cons, (plain t List.mem_cons_self).renumberMarker,
      ih fun t mem => plain t (List.mem_cons_of_mem _ mem)]

theorem Mapped.plain {known : Statement → Prop} {ts : List TextLine} {last : Option Nat}
    (mapped : Mapped known last ts) : ∀ t ∈ ts, t.IsPlain := by
  induction mapped with
  | nil => simp
  | @written last line rest fits more ih =>
    refine List.forall_mem_cons.2 ⟨?_, ih⟩
    cases line with
    | marker => trivial
    | code origin depth text => exact Or.inr (fits.1.indented depth)
  | @other t rest last unmarked apart more ih =>
    refine List.forall_mem_cons.2 ⟨?_, ih⟩
    unfold TextLine.IsPlain
    split
    · trivial
    · trivial
    · exact unmarked

theorem contains_renumber (f : Nat → Nat) (line : SketchLine) :
    contains (line.renumber f).render "__vb_" = contains line.render "__vb_" := by
  cases line with
  | marker origin depth source => rw [contains_marker, SketchLine.renumber, contains_marker]
  | code origin depth text => rfl

theorem lines_renumber (f : Nat → Nat) (p : Procedure) :
    (p.renumber f).lines = p.lines.map (.renumber f) := by
  simp only [Procedure.lines, Procedure.renumber, List.map_append, List.map_map]
  rfl

theorem usesHelpers_renumber (f : Nat → Nat) (s : Sketch) :
    (s.renumber f).usesHelpers = s.usesHelpers := by
  have all : (s.renumber f).globals ++ (s.renumber f).setup ++ (s.renumber f).loop ++
      (s.renumber f).procedures.flatMap Procedure.lines =
        (s.globals ++ s.setup ++ s.loop ++ s.procedures.flatMap Procedure.lines).map
          (.renumber f) := by
    simp only [renumber, List.map_append, List.flatMap_map, List.map_flatMap, lines_renumber]
  rw [usesHelpers, all, List.any_map]
  exact congrArg (List.any _) (funext (contains_renumber f))

theorem textLines_renumber (f : Nat → Nat) (s : Sketch) :
    (s.renumber f).textLines = s.textLines.map (.renumber f) := by
  have fixed (ts : List String) :
      (ts.map TextLine.fixed).map (TextLine.renumber f) = ts.map .fixed := by
    rw [List.map_map]
    rfl
  have written (ls : List SketchLine) : (ls.map TextLine.written).map (TextLine.renumber f) =
      (ls.map (SketchLine.renumber f)).map .written := by
    rw [List.map_map, List.map_map]
    rfl
  have header (line : SketchLine) :
      (TextLine.ofHeader line).renumber f = .ofHeader (line.renumber f) := by
    cases line <;> rfl
  have procedure (p : Procedure) :
      p.textLines.map (TextLine.renumber f) = (p.renumber f).textLines := by
    simp only [Procedure.textLines, Procedure.renumber, List.map_append, List.map_map,
      Function.comp_def, header]
    rfl
  have includes : (s.renumber f).includeLines = s.includeLines := by
    rw [includeLines, usesHelpers_renumber]
    rfl
  simp only [textLines, includes, usesHelpers_renumber, List.map_append, fixed, written,
    List.map_flatMap, procedure]
  simp only [renumber, List.flatMap_map, List.map_cons, List.map_nil, TextLine.renumber]
  rfl

end Sketch

/-! Every sketch is plain: it is so with all its numbers set to zero. -/

namespace Statement

mutual

theorem clean_renumber (f : Nat → Nat) : ∀ {st : Statement}, st.Clean → (st.renumber f).Clean
  | .plain .., clean => clean
  | .inlineIf .., ⟨condition, branch⟩ => ⟨condition, clean_renumber f branch⟩
  | .inlineIfElse .., ⟨condition, branch, other⟩ =>
    ⟨condition, clean_renumber f branch, clean_renumber f other⟩
  | .every .., ⟨interval, body⟩ => ⟨interval, allClean_renumber f body⟩

theorem allClean_renumber (f : Nat → Nat) :
    ∀ {sts : List Statement}, AllClean sts → AllClean (renumberAll f sts)
  | [], _ => trivial
  | _ :: _, ⟨first, rest⟩ => ⟨clean_renumber f first, allClean_renumber f rest⟩

end

mutual

theorem line_inside_renumber (n : Nat) :
    ∀ (st : Statement), ∀ other ∈ (st.renumber fun _ => n).inside, other.line = n
  | .every _ _ body => line_listing_renumber n body
  | .plain .. | .inlineIf .. | .inlineIfElse .. => fun _ mem => absurd mem List.not_mem_nil

theorem line_listing_renumber (n : Nat) :
    ∀ (sts : List Statement), ∀ st ∈ listing (renumberAll (fun _ => n) sts), st.line = n
  | [] => fun _ mem => absurd mem List.not_mem_nil
  | first :: rest => by
    intro st mem
    rcases List.mem_cons.1 mem with rfl | among
    · exact line_renumber _ first
    · rcases List.mem_append.1 among with inside | later
      · exact line_inside_renumber n first st inside
      · exact line_listing_renumber n rest st later

end

end Statement

namespace Sketch

theorem plain_ofStatements (options : Options) {sts : List Statement}
    (clean : Statement.AllClean sts) : ∀ t ∈ (ofStatements options sts).textLines, t.IsPlain := by
  have tracked := @tracked_ofStatements (·.line = 0) options _
    (Statement.allClean_renumber (fun _ => 0) clean) (Statement.line_listing_renumber 0 sts)
    fun st line => line ▸ Nat.zero_le _
  have plain := (mapped_textLines tracked).plain
  rw [Statement.renumberAll_eq, ofStatements_renumber rfl, textLines_renumber] at plain
  intro t mem
  exact (t.isPlain_renumber _).1 (plain _ (List.mem_map_of_mem mem))

end Sketch

/-- One more blank line, where no line goes on, changes the numbers on the markers of later
statements and nothing else. -/
theorem blank_line_changes_markers_only (options : Options) {source source' : String}
    {before after : List String} {blank : String}
    (lines : Text.lines source = before ++ after)
    (inserted : Text.lines source' = before ++ blank :: after)
    (isBlank : Text.trim (LogicalLine.stripComment blank) = "")
    (boundary : LogicalLine.pendingAfter 1 none before = none) :
    let code := (Output.ofSource options source).code
    code = Text.unlines (Text.lines code) ∧
      (Output.ofSource options source').code =
        Text.unlines ((Text.lines code).map
          (renumberMarker fun n => if before.length < n then n + 1 else n)) := by
  intro code
  have plain := Sketch.plain_ofStatements options (clean_ofSource source)
  have flat := fun t mem => (plain t mem).flat
  have numbered := LogicalLine.ofSource_blank lines inserted isBlank boundary
  have statements := Program.statements_renumber numbered
  have begins : LogicalLine.movedBehind before.length 0 = 0 := if_neg (Nat.not_lt_zero _)
  have codeEq : code = _ := code_ofSource options source
  constructor
  · rw [codeEq, Sketch.lines_render flat, Sketch.render_eq flat]
  · rw [code_ofSource, statements, Sketch.ofStatements_renumber begins, Sketch.render_eq,
      Sketch.textLines_renumber, Sketch.shown_renumber _ plain, codeEq, Sketch.lines_render flat]
    · rfl
    · rw [Sketch.textLines_renumber]
      intro t mem
      obtain ⟨u, among, rfl⟩ := List.mem_map.1 mem
      exact ((u.isPlain_renumber _).2 (plain u among)).flat

theorem blank_line_changes_markers_only_every :
    let before := ["Every 5 Do", "  x = 1 + _", "    2"]
    let after := ["  If x Then y = 2", "End Do", "z = 3"]
    let source := "Every 5 Do\n  x = 1 + _\n    2\n  If x Then y = 2\nEnd Do\nz = 3"
    let source' :=
      "Every 5 Do\n  x = 1 + _\n    2\n  Rem a note _\n  If x Then y = 2\nEnd Do\nz = 3"
    let code := (Output.ofSource Options.standard source).code
    Text.lines source = before ++ after ∧
      Text.lines source' = before ++ "  Rem a note _" :: after ∧
      Text.trim (LogicalLine.stripComment "  Rem a note _") = "" ∧
      LogicalLine.pendingAfter 1 none before = none ∧
      (Output.ofSource Options.standard source').code =
        Text.unlines ((Text.lines code).map
          (renumberMarker fun n => if 3 < n then n + 1 else n)) := by
  intro before after source source' code
  have lines : Text.lines source = before ++ after := by decide +kernel
  have inserted : Text.lines source' = before ++ "  Rem a note _" :: after := by decide +kernel
  have isBlank : Text.trim (LogicalLine.stripComment "  Rem a note _") = "" := by decide +kernel
  have boundary : LogicalLine.pendingAfter 1 none before = none := by decide +kernel
  exact ⟨lines, inserted, isBlank, boundary,
    (blank_line_changes_markers_only Options.standard lines inserted isBlank boundary).2⟩

end BasicSketch
