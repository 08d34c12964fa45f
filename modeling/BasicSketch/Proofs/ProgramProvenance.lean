import BasicSketch.Proofs.DeedLines
import BasicSketch.Proofs.Reading

set_option autoImplicit false

/-!
Where the statements of a program come from: the action of each is read off one line, a line of the
source or a branch cut out of one.
-/

namespace BasicSketch

open Token (ofLine)

namespace LineForm

open Phrase

theorem from_condition {line : String} {ts rest : List Token} {e : Expr}
    (inside : ts <:+: ofLine line) (read : condition.run ts = .ok (e, rest)) : e.From line := by
  obtain ⟨r, -, ⟨origin, -⟩, -⟩ := (finds_condition ts inside).of_ok read
  exact origin

theorem infix_splitElse {line : String} {first t : Token} {rest ts a b : List Token} {c : Expr}
    (whole : ofLine line = first :: rest) (read : condition.run rest = .ok (c, t :: ts))
    (parts : splitElse ts = (a, b)) : a ++ b <:+: ofLine line := by
  have both : (splitElse ts).1 ++ (splitElse ts).2 = ts := Token.splitAtTop_append ..
  have left := (List.suffix_cons t ts).trans (Reader.suffix_of_run read)
  rw [parts] at both
  rw [both, whole]
  exact (left.trans (List.suffix_cons first rest)).isInfix

theorem from_ofText (line : String) : (ofText line).From line := by
  have test {line : String} {first : Token} {rest ts : List Token} {c : Expr}
      (whole : ofLine line = first :: rest) (read : condition.run rest = .ok (c, ts)) :
      c.From line := from_condition (whole ▸ (List.suffix_cons first rest).isInfix) read
  fun_induction ofText line with
  | case1 | case2 | case5 | case10 => rfl
  | case3 _ _ _ whole _ _ read => exact test whole read
  | case4 _ _ _ whole _ _ _ read => exact test whole read
  | case6 _ _ _ whole _ _ _ _ _ read thenPart _ parts branch =>
    rw [← List.append_nil thenPart] at branch ⊢
    exact ⟨test whole read, _, (infix_splitElse whole read parts).subset, branch⟩
  | case7 _ _ _ whole _ _ _ _ _ read thenPart _ _ parts branch =>
    exact ⟨rfl, thenPart, fun u mem => (infix_splitElse whole read parts).subset
      (List.mem_append_left _ mem), branch⟩
  | case8 _ _ _ whole _ _ _ _ _ read thenPart _ elsePart _ _ parts branch branch' =>
    have inside := (infix_splitElse whole read parts).subset
    exact ⟨test whole read, ⟨thenPart, fun u mem => inside (List.mem_append_left _ mem), branch⟩,
      elsePart, fun u mem => inside (List.mem_append_right _ (List.mem_cons_of_mem _ mem)), branch'⟩
  | case9 _ _ _ whole _ _ read => exact (known_of_read whole read).1

end LineForm

theorem BodyLine.finds_entry (body : BodyKind) {line : String} :
    Phrase.FindsEntry line body body.entry := by
  cases body with
  | record => exact Phrase.finds_typeField
  | enumeration => exact Phrase.finds_enumMember

theorem BodyLine.from_entry {body : BodyKind} {line : String} {a : Action}
    (read : ofTokens body (ofLine line) = .entry (.ok a)) :
    a.Within body line := by
  have entries {ts : List Token} (inside : ts <:+: ofLine line)
      (found : body.entry.value ts = .ok a) :
      a.Within body line := by
    obtain ⟨_, -, found, -⟩ := ((finds_entry body).value inside).of_ok found
    exact found
  have inside : ofLine line <:+: ofLine line := List.infix_refl _
  unfold ofTokens at read
  split at read
  · rename_i none
    rw [none] at inside
    exact entries (none ▸ inside) (BodyLine.entry.inj read)
  · rename_i first rest eq
    rw [eq] at inside
    repeat' split at read
    all_goals first
      | exact entries (eq ▸ inside) (BodyLine.entry.inj read)
      | simp at read

namespace Statement

variable (good : String → Prop)

mutual

def From : Statement → Prop
  | .plain _ a => ∃ line, good line ∧ a.From line
  | .inlineIf _ c thenBranch => (∃ line, good line ∧ c.From line) ∧ thenBranch.From
  | .inlineIfElse _ c thenBranch elseBranch =>
    (∃ line, good line ∧ c.From line) ∧ thenBranch.From ∧ elseBranch.From
  | .every _ interval body => (∃ line, good line ∧ interval.From line) ∧ AllFrom body

def AllFrom : List Statement → Prop
  | [] => True
  | first :: rest => first.From ∧ AllFrom rest

end

end Statement

namespace Reading

variable {good : String → Prop}

def GoodAhead (good : String → Prop) (s : Reading) : Prop := ∀ l ∈ s.lines, good l.text

theorem from_run (branch : ∀ line ts, good line → ts ⊆ ofLine line →
      good (LineForm.branchText ts)) :
    Always
      (fun s _ f r => ∀ line, good line → f.From line → s.GoodAhead good →
        r.1.From good ∧ r.2.GoodAhead good)
      (fun s l r => good l.text → s.GoodAhead good → r.1.From good ∧ r.2.GoodAhead good)
      (fun s _ r => s.GoodAhead good → Statement.AllFrom good r.1 ∧ r.2.GoodAhead good) := by
  apply run_induction
  case leaf =>
    intro s n f a t leaf line known here ahead
    refine ⟨⟨line, known, by cases leaf <;> exact here⟩, ?_⟩
    rwa [GoodAhead, leaf.kept.1]
  case every =>
    intro s n interval r _ body line known here ahead
    exact ⟨⟨⟨line, known, here⟩, (body ahead).1⟩, (body ahead).2⟩
  case inlineIf =>
    rintro s n c f inner line known ⟨here, ts, inside, branchFrom⟩ ahead
    have thenBranch := inner _ (branch line ts known inside) branchFrom ahead
    exact ⟨⟨⟨line, known, here⟩, thenBranch.1⟩, thenBranch.2⟩
  case inlineIfElse =>
    rintro s n c f g inner inner' line known ⟨here, ⟨ts, inside, branchFrom⟩, ts', inside', from'⟩
      ahead
    have first := inner _ (branch line ts known inside) branchFrom ahead
    have second := inner' _ (branch line ts' known inside') from' first.2
    exact ⟨⟨⟨line, known, here⟩, first.1, second.1⟩, second.2⟩
  case danglingElse =>
    rintro s n text f inner line known ⟨here, ts, inside, branchFrom⟩ ahead
    have dropped := inner _ (branch line ts known inside) branchFrom ahead
    exact ⟨⟨line, known, here⟩, dropped.2⟩
  case opens =>
    intro s l t r opens form known ahead
    exact form l.text known (LineForm.from_ofText l.text) (by rwa [GoodAhead, opens.kept.1])
  case continues =>
    intro s l a t continues known ahead
    refine ⟨⟨l.text, known, ?_⟩, by rwa [GoodAhead, continues.kept.1]⟩
    cases continues with
    | @ends body => cases body <;> trivial
    | entry _ read => exact (BodyLine.from_entry read).1
    | unread => rfl
  case ended =>
    intro s every none_left ahead
    exact ⟨trivial, by cases every <;> exact ahead⟩
  case closed =>
    intro s every l rest lines _ ahead
    exact ⟨trivial, fun l' mem => ahead l' (lines ▸ List.mem_cons_of_mem _ mem)⟩
  case cons =>
    intro s every l rest first r lines _ _ _ line more ahead
    have here := line (ahead l (lines ▸ List.mem_cons_self))
      fun l' mem => ahead l' (lines ▸ List.mem_cons_of_mem _ mem)
    have later := more here.2
    exact ⟨⟨here.1, later.1⟩, later.2⟩

end Reading

theorem from_ofSource {good : String → Prop} (source : String)
    (lines : ∀ l ∈ LogicalLine.ofSource source, good l.text)
    (branch : ∀ line ts, good line → ts ⊆ ofLine line → good (LineForm.branchText ts)) :
    Statement.AllFrom good (Program.ofSource source).statements :=
  ((Reading.from_run branch).lines _ none fun l mem => lines l mem).1

end BasicSketch
