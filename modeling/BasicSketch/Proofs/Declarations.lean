import BasicSketch.Proofs.InPlace
import BasicSketch.Proofs.ScopeDiscipline

set_option autoImplicit false

/-! The declarations among the lines of a sketch. -/

namespace BasicSketch

open Text

def Action.declares : Action → Bool
  | .dim _ | .static _ | .const .. | .arrayLiteral _ => true
  | _ => false

def Statement.declares : Statement → Bool
  | .plain _ action => action.declares
  | _ => false

namespace SketchLine

def declaration? : SketchLine → Option String
  | .code origin _ text => if origin.author.any Statement.declares then some text else none
  | .marker .. => none

def declarations (ls : List SketchLine) : List String := ls.filterMap declaration?

theorem declarations_append (ls more : List SketchLine) :
    declarations (ls ++ more) = declarations ls ++ declarations more :=
  List.filterMap_append

end SketchLine

open SketchLine

namespace Sketch

variable {s s' s'' : Sketch}

theorem declarations_pushed (s : Sketch) (inPlace : Bool) (scope : Scope) (depth : Nat)
    (text : String) :
    declarations (s.pushed inPlace scope depth text) =
      if s.author.any Statement.declares then [text] else [] := by
  unfold pushed declarations
  cases declares : s.author.any Statement.declares <;> split <;>
    simp [declaration?, declares, List.filterMap_cons]

/-- What is written now is no declaration of its own. -/
def DeclaresNothing (s : Sketch) : Prop :=
  s.capture.isSome = true ∨ s.author.any Statement.declares = false

/-- The same statement is being written in the same scope, and no name and no declaration is new. -/
structure Keeps (s s' : Sketch) : Prop where
  author : s'.author = s.author
  capture : s'.capture.isSome = s.capture.isSome
  scope : s'.scope = s.scope
  procedures : s'.procedures = s.procedures
  heading : s'.open?.map Procedure.heading = s.open?.map Procedure.heading
  globalNames : s'.globalNames = s.globalNames
  localNames : s'.localNames = s.localNames
  declared : ∀ b, declarations (s'.buffer b) = declarations (s.buffer b)

theorem Keeps.trans (first : Keeps s s') (second : Keeps s' s'') : Keeps s s'' where
  author := second.author.trans first.author
  capture := second.capture.trans first.capture
  scope := second.scope.trans first.scope
  procedures := second.procedures.trans first.procedures
  heading := second.heading.trans first.heading
  globalNames := second.globalNames.trans first.globalNames
  localNames := second.localNames.trans first.localNames
  declared b := (second.declared b).trans (first.declared b)

theorem Keeps.note (s : Sketch) (symbols : Symbols) (includes sprites : List String)
    (blocks : List Block) (everyCount : Nat) (events : List Event) :
    Keeps s { s with symbols, includes, sprites, blocks, everyCount, events } :=
  ⟨rfl, rfl, rfl, rfl, rfl, rfl, rfl, fun b => by cases b <;> rfl⟩

theorem names_push (s : Sketch) (inPlace : Bool) (scope : Scope) (depth : Nat) (text : String) :
    (s.push inPlace scope depth text).globalNames = s.globalNames ∧
      (s.push inPlace scope depth text).localNames = s.localNames := by
  obtain ⟨_, _, _, _, _, _, eq, -⟩ := push_frame s inPlace scope depth text
  rw [eq]
  exact ⟨rfl, rfl⟩

theorem Chores.keeps (chores : Chores s s') (quiet : s.DeclaresNothing) : Keeps s s' := by
  induction chores with
  | push s inPlace scope depth text here =>
    obtain ⟨globalNames, localNames⟩ := names_push s inPlace scope depth text
    refine ⟨by simp, by simp, by simp, by simp, by simp, globalNames, localNames, fun b => ?_⟩
    cases capturing : s.capture with
    | some texts => rw [buffer_push_captured _ _ _ _ _ (by simp [capturing])]
    | none =>
      have plain : s.author.any Statement.declares = false := by
        simpa [DeclaresNothing, capturing] using quiet
      rw [buffer_push _ _ _ _ _ capturing, declarations_append]
      split
      · rw [declarations_pushed, plain]
        exact List.append_nil _
      · exact List.append_nil _
  | note s symbols includes sprites blocks everyCount events =>
    exact .note s symbols includes sprites blocks everyCount events
  | @trans s s' s'' _ _ first second =>
    have between := first quiet
    have still : s'.DeclaresNothing := by rwa [DeclaresNothing, between.capture, between.author]
    exact between.trans (second still)

end Sketch

end BasicSketch
