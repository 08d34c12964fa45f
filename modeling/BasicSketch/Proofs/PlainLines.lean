import BasicSketch.Proofs.Reading

set_option autoImplicit false

/-! Programs whose lines hold one action each, and neither records nor enumerations. -/

namespace BasicSketch

def Action.opensBody : Action → Bool
  | .typeStart _ | .enumStart _ => true
  | _ => false

def LogicalLine.plain? (line : LogicalLine) : Option Statement :=
  match LineForm.ofText line.text with
  | .action a => if a.opensBody then none else some (.plain line.number a)
  | _ => none

namespace Reading

theorem after_of_not_opensBody (s : Reading) {a : Action} (plain : a.opensBody = false) :
    s.after a = s := by
  cases a <;> first | rfl | simp [Action.opensBody] at plain

theorem statements_plain {lines : List LogicalLine} :
    ∀ {s : Reading}, s.lines = lines → s.body = none →
      lines.all (fun line => line.plain?.isSome) = true →
      (s.statements none).1.1 = lines.filterMap LogicalLine.plain? := by
  induction lines with
  | nil =>
    intro s lines _ _
    rw [statements_end none lines]
    rfl
  | cons line rest ih =>
    intro s lines free plain
    obtain ⟨here, behind⟩ := Bool.and_eq_true_iff.1 plain
    obtain ⟨st, read⟩ := Option.isSome_iff_exists.1 here
    have first : ({ s with lines := rest }.lineStatement line).1 =
        (st, { s with lines := rest, line := line.number }) := by
      rw [@lineStatement_opens { s with lines := rest } _ line (.free free)]
      unfold LogicalLine.plain? at read
      split at read
      · rename_i a form
        split at read
        · cases read
        · rename_i inner
          rw [form, statement_action, after_of_not_opensBody _ (Bool.eq_false_iff.2 inner),
            Option.some.inj read]
      · cases read
    rw [statements_cons lines (by simp), first, List.filterMap_cons, read]
    exact congrArg (st :: ·) (ih rfl free behind)

end Reading

theorem Program.statements_ofSource {source : String}
    (plain : (LogicalLine.ofSource source).all (fun line => line.plain?.isSome) = true) :
    (ofSource source).statements = (LogicalLine.ofSource source).filterMap LogicalLine.plain? :=
  Reading.statements_plain rfl rfl plain

end BasicSketch
