import BasicSketch.Proofs.CleanReading
import BasicSketch.Proofs.ProgramProvenance

set_option autoImplicit false

/-! The statements of a source have no line feeds in them. -/

namespace BasicSketch

open Text

namespace Token

theorem leadsCode_of_ofLine {line : String} {first : Token} {rest : List Token}
    (whole : ofLine line = first :: rest) (word : first.isWord = true) :
    LeadsCode (String.ofList (dropBlanks line.toList)) := by
  have laid := whole ▸ laid_ofLine line
  generalize line.toList = cs at laid
  cases laid with
  | token white reads =>
    obtain ⟨c, more, rfl, -⟩ := reads.begins
    have leads := leads_of_nameStart (reads.lexeme.wordText word).start
    have dark : isBlank c = false := by simpa using (Bool.and_eq_true_iff.1 leads).1
    rw [dropBlanks, List.dropWhile_append_of_pos fun d mem => isBlank_of_isGap (white d mem),
      List.cons_append, List.dropWhile_cons_of_neg (by simp [dark])]
    exact leadsCode_ofList leads

end Token

namespace Statement

mutual

def Clean : Statement → Prop
  | .plain _ a => a.Clean
  | .inlineIf _ c thenBranch => c.Clean ∧ thenBranch.Clean
  | .inlineIfElse _ c thenBranch elseBranch => c.Clean ∧ thenBranch.Clean ∧ elseBranch.Clean
  | .every _ interval body => interval.Clean ∧ AllClean body

def AllClean : List Statement → Prop
  | [] => True
  | first :: rest => first.Clean ∧ AllClean rest

end

theorem clean_action {a : Action} (here : ∃ line, Flat line ∧ a.From line) : a.Clean := by
  obtain ⟨line, flat, here⟩ := here
  exact here.clean flat fun _ _ whole word => Token.leadsCode_of_ofLine whole word

theorem clean_expr {e : Expr} (here : ∃ line, Flat line ∧ e.From line) : e.Clean := by
  obtain ⟨line, flat, here⟩ := here
  exact here.clean fun t mem => Token.clean_of_mem_ofLine flat mem

mutual

theorem From.clean : ∀ {st : Statement}, st.From Flat → st.Clean
  | .plain _ _, here => clean_action here
  | .inlineIf _ _ _, ⟨condition, branch⟩ => ⟨clean_expr condition, branch.clean⟩
  | .inlineIfElse _ _ _ _, ⟨condition, branch, other⟩ =>
    ⟨clean_expr condition, branch.clean, other.clean⟩
  | .every _ _ _, ⟨interval, body⟩ => ⟨clean_expr interval, AllFrom.clean body⟩

theorem AllFrom.clean : ∀ {sts : List Statement}, AllFrom Flat sts → AllClean sts
  | [], _ => trivial
  | _ :: _, ⟨first, rest⟩ => ⟨first.clean, AllFrom.clean rest⟩

end

end Statement

theorem flat_branchText (line : String) (ts : List Token) (flat : Flat line)
    (inside : ts ⊆ Token.ofLine line) : Flat (LineForm.branchText ts) :=
  flat_trim (Token.flat_slice fun _ mem => Token.clean_of_mem_ofLine flat (inside mem))

theorem clean_ofSource (source : String) :
    Statement.AllClean (Program.ofSource source).statements :=
  (from_ofSource source (fun _ mem => LogicalLine.flat_of_mem_ofSource mem) flat_branchText).clean

end BasicSketch
