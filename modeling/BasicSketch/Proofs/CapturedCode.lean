import BasicSketch.Proofs.ClearExpression
import BasicSketch.Proofs.Moments

set_option autoImplicit false

/-! What actions add to the code of a branch. -/

namespace BasicSketch

open Text

def Action.isClear (a : Action) : Bool :=
  a.raws.all (fun text => decide (Cpp.Contained text)) && a.exprs.all Cpp.isClear

namespace Cpp

def Tells (keeps : Bool) (text : String) : Prop :=
  if keeps then EndsInComment text else Contained text

variable {a b keeps : Bool}

theorem Tells.append {s t : String} (first : Tells a s) (second : Tells b t) :
    Tells (a || b) (s ++ t) := by
  cases a with
  | true => exact EndsInComment.append first t
  | false =>
    cases b with
    | true => exact EndsInComment.behind second first
    | false => exact Contained.append first second

theorem Tells.trim {text : String} (tells : Tells keeps text) : Tells keeps (Text.trim text) := by
  cases keeps with
  | true => exact EndsInComment.trim tells
  | false => exact Contained.trim tells

theorem tells_of_empty (tells : Tells keeps "") : keeps = false := by
  cases keeps with
  | false => rfl
  | true => cases tells

theorem Tells.join {first second : List String} (tells : Tells a (" ".intercalate first))
    (tells' : Tells b (" ".intercalate second)) :
    Tells (a || b) (" ".intercalate (first ++ second)) := by
  by_cases absent : first = []
  · subst absent
    rw [tells_of_empty tells]
    exact tells'
  by_cases absent' : second = []
  · subst absent'
    rw [tells_of_empty tells', Bool.or_false, List.append_nil]
    exact tells
  rw [String.intercalate_append_of_ne_nil absent absent']
  have blank : Tells false " " := (by decide : Contained " ")
  have both := (tells.append blank).append tells'
  rwa [Bool.or_false] at both

end Cpp

section Texts

open Cpp

variable {a : Action} {σ : Symbols} {text : String}

theorem Action.Composes.contained (composes : a.Composes σ text) (clear : a.isClear = true)
    (bounds : σ.Contained) : Contained text := by
  obtain ⟨raws, exprs⟩ := Bool.and_eq_true_iff.1 clear
  induction composes with
  | fixed known =>
    simp only [isFixed, Bool.and_eq_true, beq_iff_eq] at known
    exact contained_ofList ⟨known.1.2, known.2⟩
  | word mem => exact of_decide_eq_true (List.all_eq_true.1 raws _ mem)
  | expression mode mem => exact contained_expression bounds mode (List.all_eq_true.1 exprs _ mem)
  | nat n => exact contained_nat n
  | append _ _ first second => exact first.append second

theorem Action.Line.tells {keeps : Bool} (line : a.Line σ keeps text) (clear : a.isClear = true)
    (bounds : σ.Contained) : Tells keeps text := by
  cases line with
  | code composes => exact composes.contained clear bounds
  | remark known =>
    simp only [Action.isRemark, Bool.and_eq_true, beq_iff_eq] at known
    refine EndsInComment.append ?_ _
    rw [EndsInComment, String.toList_ofList]
    exact known.2

end Texts

namespace Sketch

open Cpp

/-- What a step adds to the texts that are being captured has a comment if and only if `keeps`
holds, and array bounds stay self-contained. -/
structure Speaks (keeps : Bool) (s s' : Sketch) : Prop where
  texts : ∀ before ∈ s.capture, ∃ more, s'.capture = some (before ++ more) ∧
    Tells keeps (" ".intercalate more)
  bounds : s.symbols.Contained → s'.symbols.Contained

namespace Speaks

variable {s s' s'' : Sketch} {keeps : Bool}

theorem trans {a b : Bool} (first : Speaks a s s') (second : Speaks b s' s'') :
    Speaks (a || b) s s'' := by
  refine ⟨fun before mem => ?_, fun bounds => second.bounds (first.bounds bounds)⟩
  obtain ⟨more, eq, tells⟩ := first.texts before mem
  obtain ⟨more', eq', tells'⟩ := second.texts _ eq
  exact ⟨more ++ more', by rw [eq', List.append_assoc], tells.join tells'⟩

theorem next (first : Speaks false s s') (second : Speaks keeps s' s'') : Speaks keeps s s'' :=
  first.trans second

theorem last (first : Speaks keeps s s') (second : Speaks false s' s'') : Speaks keeps s s'' := by
  have both := first.trans second
  rwa [Bool.or_false] at both

theorem quiet (capture : s'.capture = s.capture) (bounds : s'.symbols.bounds = s.symbols.bounds) :
    Speaks false s s' := by
  refine ⟨fun before mem => ⟨[], by rw [capture, List.append_nil]; exact mem, contained_empty⟩, ?_⟩
  intro contained entry mem
  exact contained entry (bounds ▸ mem)

variable (s)

theorem refl : Speaks false s s := quiet rfl rfl

theorem report (e : Event) : Speaks false s (s.report e) := quiet rfl rfl

variable {text : String}

theorem push (inPlace : Bool) (scope : Scope) (depth : Nat) (tells : Tells keeps text) :
    Speaks keeps s (s.push inPlace scope depth text) := by
  refine ⟨fun before mem => ⟨[trim text], ?_, ?_⟩, fun bounds => by rwa [push_symbols]⟩
  · rw [push_captured s inPlace scope depth text mem]
  · rw [String.intercalate_singleton]
    exact tells.trim

theorem code (inPlace : Bool) (scope : Scope) (depth : Nat) (contained : Contained text) :
    Speaks false s (s.push inPlace scope depth text) :=
  push s inPlace scope depth (show Tells false text from contained)

theorem declare (name : String) : Speaks false s (s.declare name) := by
  obtain ⟨globalNames, localNames, eq⟩ := declare_frame s name
  rw [eq]
  exact quiet rfl rfl

theorem dropBlocks (closer : String) : Speaks false s (s.dropBlocks closer) := by
  obtain ⟨_, _, eq⟩ := dropBlocks_frame s closer
  rw [eq]
  exact quiet rfl rfl

theorem finishProcedure : Speaks false s s.finishProcedure := by
  unfold Sketch.finishProcedure
  split
  · exact refl s
  · rename_i p _
    obtain ⟨_, _, _, eq, -⟩ := addProcedure_frame { s with open? := none } p
    rw [eq]
    exact quiet rfl rfl

theorem endProcedure : Speaks false s s.endProcedure := by
  have brace : Contained "\x7d" := by decide
  unfold Sketch.endProcedure
  split
  · exact report s _
  · exact (dropBlocks s _).trans (quiet rfl rfl)
  · exact (dropBlocks s _).trans (quiet rfl rfl)
  · exact (((dropBlocks s "End").trans (code _ false .procedure 0 brace)).trans
      (finishProcedure _)).trans (quiet rfl rfl)

theorem leave (reason : String) : Speaks false s (s.leave reason) := by
  unfold Sketch.leave
  split
  · exact refl s
  · exact (report s _).trans (endProcedure _)

theorem enterRoutine (scope : Scope) : Speaks false s (s.enterRoutine scope) :=
  (leave s _).trans (quiet rfl rfl)

theorem enterProcedure (signature : String) {header : String} (contained : Contained header) :
    Speaks false s (s.enterProcedure signature header) := by
  have begun : Speaks false s ((s.leave "next procedure").begin signature) :=
    (leave s _).trans (quiet rfl rfl)
  rw [enterProcedure_eq]
  exact (begun.trans (code _ false .procedure 0 contained)).trans (quiet rfl rfl)

end Speaks

variable {s : Sketch} {e : Expr} (bounds : s.symbols.Contained)

include bounds

theorem contained_value (clear : isClear e.text = true) : Contained (s.value e) :=
  contained_expression bounds .value clear

theorem contained_condition (clear : isClear e.text = true) : Contained (s.condition e) :=
  contained_expression bounds .condition clear

omit bounds

namespace Speaks

variable {a : Action}

theorem of_does {keeps : Bool} {s s' : Sketch} (does : Does a keeps s s')
    (clear : a.isClear = true) (bounds : s.symbols.Contained) : Speaks keeps s s' := by
  induction does with
  | line s known line | elsewhere s known line =>
    exact push s _ _ _ (line.tells clear fun entry mem => bounds entry (known mem))
  | note s learned =>
    refine ⟨(refl s).texts, fun _ entry mem => ?_⟩
    rcases learned entry mem with before | new
    · exact bounds entry before
    · exact fun b bound => (new b bound).contained clear bounds
  | hoist | turn => exact quiet rfl rfl
  | trans _ _ first second =>
    have begun := first bounds
    exact begun.trans (second (begun.bounds bounds))

theorem procedureStart {h : ProcedureHeader} (clear : (Action.procedureStart h).isClear = true)
    (bounds : s.symbols.Contained) : Speaks false s (s.procedureStart h) := by
  have declares (ps : List Parameter) (t : Sketch) :
      Speaks false t (ps.foldl (fun s p => s.declare p.name) t) := by
    induction ps generalizing t with
    | nil => exact refl t
    | cons p rest ih => exact (declare t p.name).next (ih _)
  have known : Speaks false s (s.parameterTexts h.parameters).2.2 := by
    obtain ⟨σ, eq, same⟩ := parameterTexts_frame s h.parameters
    rw [eq]
    exact quiet rfl same
  unfold Sketch.procedureStart
  split
  · exact enterRoutine s _
  split
  · exact enterRoutine s _
  refine known.next (((enterProcedure _ _ ?_).next (declare _ _)).next (declares _ _))
  refine Action.Composes.contained (.append (.called (.append (.append
    (composes_result h s.symbols) (.fixed rfl)) (.word ?_)) ?_) (.fixed rfl)) clear bounds
  · simp [Action.raws]
  · exact composes_parameterTexts s s.symbols fun text mem => by simp_all [Action.raws]

theorem perform (bounds : s.symbols.Contained) {a : Action} (clear : a.isClear = true) :
    Speaks a.keepsComment s (s.perform a) := by
  cases a with
  | procedureStart h => exact procedureStart clear bounds
  | procedureEnd kind => exact endProcedure s
  | _ => exact of_does (.perform s _ (by simp) (by simp)) clear bounds

end Speaks

end Sketch

end BasicSketch
