import BasicSketch.Proofs.CapturedCode

set_option autoImplicit false

/-! The braces of a single-line `If`. -/

namespace BasicSketch

open Text Cpp

namespace Statement

def isInlineIf : Statement → Bool
  | .inlineIf .. | .inlineIfElse .. => true
  | _ => false

mutual

def isClear : Statement → Bool
  | .plain _ action => action.isClear
  | .inlineIf _ c thenBranch => Cpp.isClear c.text && thenBranch.isClear
  | .inlineIfElse _ c thenBranch elseBranch =>
    Cpp.isClear c.text && thenBranch.isClear && elseBranch.isClear
  | .every _ interval body => Cpp.isClear interval.text && areClear body

def areClear : List Statement → Bool
  | [] => true
  | first :: rest => first.isClear && areClear rest

end

mutual

def keepsComment : Statement → Bool
  | .plain _ action => action.keepsComment
  | .inlineIf _ _ thenBranch => thenBranch.keepsComment
  | .inlineIfElse _ _ thenBranch elseBranch => thenBranch.keepsComment || elseBranch.keepsComment
  | .every _ _ body => keepComment body

def keepComment : List Statement → Bool
  | [] => false
  | first :: rest => first.keepsComment || keepComment rest

end

end Statement

namespace Sketch

namespace Speaks

variable {s : Sketch}

variable {keeps : Bool}

theorem captured {write : Sketch → Sketch} (bounds : s.symbols.Contained)
    (speaks : ∀ t : Sketch, t.symbols.Contained → Speaks keeps t (write t)) :
    Tells keeps (s.captured write).1 ∧ Speaks false s (s.captured write).2 := by
  have inside := speaks { s with capture := some [] } bounds
  obtain ⟨more, eq, tells⟩ := inside.texts [] rfl
  refine ⟨?_, fun before mem => ⟨[], ?_, contained_empty⟩, fun _ => inside.bounds bounds⟩
  · simpa only [Sketch.captured, eq, Option.getD_some, List.nil_append] using tells
  · rw [List.append_nil]
    exact mem

theorem writeFor (st : Statement) {write : Sketch → Sketch} (bounds : s.symbols.Contained)
    (speaks : ∀ t : Sketch, t.symbols.Contained → Speaks keeps t (write t)) :
    Speaks keeps s (s.writeFor st write) := by
  have inside := speaks { s with author := some st } bounds
  exact ⟨inside.texts, inside.bounds⟩

theorem poll (id : Nat) {interval : String} (contained : Contained interval) :
    Speaks false s (s.poll id interval) := by
  have number := contained_nat id
  have named {lead ending : String} (leads : Contained lead) (ends : Contained ending) :=
    (leads.append number).append ends
  have test : Contained s!"if (millis() - _every_last_{id} >= {interval}) \x7b" :=
    ((named (by decide) (by decide)).append contained).append (by decide)
  exact (((code s false .loop 1 test).next
    (code _ false .loop 2 (named (by decide) (by decide)))).next
    (code _ false .loop 2 (named (by decide) (by decide)))).next (code _ false .loop 1 (by decide))

theorem emitEvery {interval : Expr} {body : Sketch → Sketch} (bounds : s.symbols.Contained)
    (clear : Cpp.isClear interval.text = true)
    (speaks : ∀ t : Sketch, t.symbols.Contained → Speaks keeps t (body t)) :
    Speaks keeps s (s.emitEvery interval body) := by
  have number := contained_nat (s.everyCount + 1)
  have named {lead ending : String} (leads : Contained lead) (ends : Contained ending) :=
    (leads.append number).append ends
  have announced : Speaks false s s.announce :=
    next (quiet rfl rfl : Speaks false s { s with everyCount := s.everyCount + 1 })
      (code _ false .global 0 (named (by decide) (by decide)))
  have suspended : Speaks false s.announce s.announce.suspend := quiet rfl rfl
  have task : Speaks false s s.task :=
    (announced.next suspended).next (enterProcedure _ _ (named (by decide) (by decide)))
  have started (t : Sketch) : Speaks false t (t.start s.line) := quiet rfl rfl
  have resumed (t : Sketch) : Speaks false t (t.resume s.announce) := quiet rfl rfl
  rw [emitEvery_eq]
  refine task.next ((speaks s.task (task.bounds bounds)).last ?_)
  refine ((((started _).next (endProcedure _)).next
    (leave _ "end of Every block")).next (resumed _)).next ?_
  exact poll _ (contained_value bounds clear)

end Speaks

def inlineText (s : Sketch) : Statement → String
  | .inlineIf _ condition thenBranch =>
    let test := s.condition condition
    let thenCode := (s.captured fun s => s.place thenBranch).1
    s!"if ({test}) \x7b {thenCode} \x7d"
  | .inlineIfElse _ condition thenBranch elseBranch =>
    let test := s.condition condition
    let (thenCode, s) := s.captured fun s => s.place thenBranch
    let elseCode := (s.captured fun s => s.place elseBranch).1
    s!"if ({test}) \x7b {thenCode} \x7d else \x7b {elseCode} \x7d"
  | _ => ""

def behindBranches (s : Sketch) : Statement → Sketch
  | .inlineIf _ _ thenBranch => (s.captured fun s => s.place thenBranch).2
  | .inlineIfElse _ _ thenBranch elseBranch =>
    ((s.captured fun s => s.place thenBranch).2.captured fun s => s.place elseBranch).2
  | _ => s

namespace Speaks

variable {s : Sketch} {c : Expr} {a b : Bool} {thenBranch elseBranch : Statement}

theorem inlineIf (line : Nat) (bounds : s.symbols.Contained) (clear : Cpp.isClear c.text = true)
    (first : ∀ t : Sketch, t.symbols.Contained → Speaks a t (t.place thenBranch)) :
    (∃ body, s.inlineText (.inlineIf line c thenBranch) = body ++ " \x7d" ∧ Tells a body) ∧
      Speaks false s (s.behindBranches (.inlineIf line c thenBranch)) := by
  obtain ⟨told, behind⟩ := captured bounds first
  have test : Tells false ("if (" ++ s.condition c ++ ") \x7b ") :=
    (Contained.append (by decide) (contained_condition bounds clear)).append (by decide)
  refine ⟨⟨_, ?_, test.append told⟩, behind⟩
  simp only [inlineText, toString_text, String.append_assoc]

theorem inlineIfElse (line : Nat) (bounds : s.symbols.Contained)
    (clear : Cpp.isClear c.text = true)
    (first : ∀ t : Sketch, t.symbols.Contained → Speaks a t (t.place thenBranch))
    (second : ∀ t : Sketch, t.symbols.Contained → Speaks b t (t.place elseBranch)) :
    (∃ body, s.inlineText (.inlineIfElse line c thenBranch elseBranch) = body ++ " \x7d" ∧
      Tells (a || b) body) ∧
        Speaks false s (s.behindBranches (.inlineIfElse line c thenBranch elseBranch)) := by
  obtain ⟨told, behind⟩ := captured bounds first
  obtain ⟨told', behind'⟩ := captured (behind.bounds bounds) second
  have test : Tells false ("if (" ++ s.condition c ++ ") \x7b ") :=
    (Contained.append (by decide) (contained_condition bounds clear)).append (by decide)
  have between : Tells false " \x7d else \x7b " := (by decide : Contained " \x7d else \x7b ")
  refine ⟨⟨_, ?_, (test.append told).append (between.append told')⟩, behind.next behind'⟩
  simp only [inlineText, toString_text, String.append_assoc]

theorem emitInline {text : String} (told : ∃ body, text = body ++ " \x7d" ∧ Tells a body) :
    Speaks a s (s.emit text) := by
  obtain ⟨body, rfl, tells⟩ := told
  have brace : Tells false " \x7d" := (by decide : Contained " \x7d")
  have whole := tells.append brace
  rw [Bool.or_false] at whole
  exact push s true s.scope s.depth whole

mutual

theorem place : (st : Statement) → st.isClear = true → (s : Sketch) → s.symbols.Contained →
    Speaks st.keepsComment s (s.place st)
  | .plain _ _, clear, _, bounds => perform bounds clear
  | .inlineIf line c thenBranch, clear, s, bounds => by
    obtain ⟨clearTest, clearThen⟩ := Bool.and_eq_true_iff.1 clear
    obtain ⟨told, behind⟩ := inlineIf line bounds clearTest (place thenBranch clearThen)
    exact behind.next (emitInline told)
  | .inlineIfElse line c thenBranch elseBranch, clear, s, bounds => by
    obtain ⟨clear, clearElse⟩ := Bool.and_eq_true_iff.1 clear
    obtain ⟨clearTest, clearThen⟩ := Bool.and_eq_true_iff.1 clear
    obtain ⟨told, behind⟩ := inlineIfElse line bounds clearTest (place thenBranch clearThen)
      (place elseBranch clearElse)
    exact behind.next (emitInline told)
  | .every _ interval body, clear, s, bounds => by
    obtain ⟨clearInterval, clearBody⟩ := Bool.and_eq_true_iff.1 clear
    exact emitEvery bounds clearInterval (statements body clearBody)

theorem statements : (sts : List Statement) → Statement.areClear sts = true → (s : Sketch) →
    s.symbols.Contained → Speaks (Statement.keepComment sts) s (s.statements sts)
  | [], _, s, _ => refl s
  | first :: rest, clear, s, bounds => by
    obtain ⟨clearFirst, clearRest⟩ := Bool.and_eq_true_iff.1 clear
    have here := writeFor first bounds fun t bounds =>
      next (quiet rfl rfl : Speaks false t (t.start first.line))
        (place first clearFirst (t.start first.line) bounds)
    exact here.trans (statements rest clearRest _ (here.bounds bounds))

end

end Speaks

end Sketch

namespace Cpp

/-- Every closing brace of the text lies outside of comments. -/
def BracesHold (text : String) : Prop :=
  ∀ before behind, text.toList = before ++ '\x7d' :: behind → Region.code.after before ≠ .comment

theorem Contained.bracesHold {text : String} (contained : Contained text) : BracesHold text := by
  intro before behind whole comment
  have ends := contained.1
  rw [whole, Region.after_append, comment, Region.after_comment] at ends
  cases ends

theorem Tells.bracesHold_iff {keeps : Bool} {body : String} (tells : Tells keeps body) :
    BracesHold (body ++ " \x7d") ↔ keeps = false := by
  cases keeps with
  | false => exact iff_of_true (Contained.append tells (by decide)).bracesHold rfl
  | true =>
    refine iff_of_false (fun holds => ?_) (by simp)
    have lost := EndsInComment.append tells " "
    exact holds (body ++ " ").toList [] (by simp) lost

end Cpp

theorem Sketch.Speaks.inlineText {s : Sketch} (bounds : s.symbols.Contained) {st : Statement}
    (inline : st.isInlineIf = true) (clear : st.isClear = true) :
    ∃ body, s.inlineText st = body ++ " \x7d" ∧ Tells st.keepsComment body := by
  cases st with
  | plain | every => cases inline
  | inlineIf line c thenBranch =>
    obtain ⟨clearTest, clearThen⟩ := Bool.and_eq_true_iff.1 clear
    exact (Speaks.inlineIf line bounds clearTest (Speaks.place thenBranch clearThen)).1
  | inlineIfElse line c thenBranch elseBranch =>
    obtain ⟨clear, clearElse⟩ := Bool.and_eq_true_iff.1 clear
    obtain ⟨clearTest, clearThen⟩ := Bool.and_eq_true_iff.1 clear
    exact (Speaks.inlineIfElse line bounds clearTest (Speaks.place thenBranch clearThen)
      (Speaks.place elseBranch clearElse)).1

/-- The braces of a single-line `If` lie outside of comments if and only if nothing in its branches
is kept as a comment. -/
theorem inline_if_braces_hold_iff (s : Sketch) (bounds : s.symbols.Contained) (st : Statement)
    (inline : st.isInlineIf = true) (clear : st.isClear = true) :
    s.place st = (s.behindBranches st).emit (s.inlineText st) ∧
      (BracesHold (s.inlineText st) ↔ st.keepsComment = false) ∧
      (st.keepsComment = false → Contained (s.inlineText st)) := by
  obtain ⟨body, eq, tells⟩ := Sketch.Speaks.inlineText bounds inline clear
  refine ⟨?_, ?_, fun absent => ?_⟩
  · cases st with
    | plain | every => cases inline
    | inlineIf | inlineIfElse => rfl
  · rw [eq]
    exact tells.bracesHold_iff
  · rw [absent] at tells
    rw [eq]
    exact Contained.append tells (by decide)

theorem braces_lost_behind_with :
    let s := (Sketch.empty Options.standard).addBounds "a" ["n / 2"]
    let choice (other : Action) := Statement.inlineIfElse 1 ⟨"UBound(a) / 2 > 1"⟩
      (.inlineIf 1 ⟨"c"⟩ (.plain 1 (.assign "x" ⟨"\"a//b\""⟩))) (.plain 1 other)
    s.inlineText (choice (.const "K" ⟨"1"⟩)) = "if ((n / 2) / 2 > 1) \x7b " ++
        "if (c) \x7b x = \"a//b\"; \x7d \x7d else \x7b const auto K = 1; \x7d" ∧
      BracesHold (s.inlineText (choice (.const "K" ⟨"1"⟩))) ∧
      s.inlineText (choice (.withObject ⟨"b"⟩)) = "if ((n / 2) / 2 > 1) \x7b " ++
        "if (c) \x7b x = \"a//b\"; \x7d \x7d else \x7b // With b (not supported) \x7d" ∧
      ¬BracesHold (s.inlineText (choice (.withObject ⟨"b"⟩))) := by
  intro s choice
  have bounds : s.symbols.Contained := by
    intro entry mem bound here
    obtain rfl := List.mem_singleton.1 mem
    obtain rfl := List.mem_singleton.1 here
    decide
  have held := inline_if_braces_hold_iff s bounds (choice (.const "K" ⟨"1"⟩)) rfl
    (by decide +kernel)
  have lost := inline_if_braces_hold_iff s bounds (choice (.withObject ⟨"b"⟩)) rfl
    (by decide +kernel)
  refine ⟨by decide +kernel, held.2.1.2 rfl, by decide +kernel, fun holds => ?_⟩
  cases lost.2.1.1 holds

end BasicSketch
