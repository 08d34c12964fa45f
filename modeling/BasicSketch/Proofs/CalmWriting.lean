import BasicSketch.Proofs.CleanProgram
import BasicSketch.Proofs.CppNesting
import BasicSketch.Proofs.Declarations
import BasicSketch.Proofs.Moments

set_option autoImplicit false

/-! What statements do to the constructs of C++ around them. -/

namespace BasicSketch

open Text SketchLine

open Cpp (bearing stays_of_ends stays_around bearing_of_heads heads_ofList)

def Statement.isBranch : Statement → Bool
  | .plain _ a => a.isCalm
  | .inlineIf _ _ thenBranch => thenBranch.isBranch
  | .inlineIfElse _ _ thenBranch elseBranch => thenBranch.isBranch && elseBranch.isBranch
  | .every .. => false

namespace Sketch

structure Calm (s s' : Sketch) : Prop where
  scope : s'.scope = s.scope
  opened : s'.open?.isSome = s.open?.isSome
  author : s'.author = s.author
  capture : s'.capture.isSome = s.capture.isSome
  lines : ∀ b, ∃ new, s'.buffer b = s.buffer b ++ new ∧ Neutral new ∧
    (s.capture.isSome = true → new = [])

namespace Calm

variable {s s' s'' : Sketch}

theorem trans (first : Calm s s') (second : Calm s' s'') : Calm s s'' := by
  refine ⟨second.scope.trans first.scope, second.opened.trans first.opened,
    second.author.trans first.author, second.capture.trans first.capture, fun b => ?_⟩
  obtain ⟨new, eq, neutral, captured⟩ := first.lines b
  obtain ⟨more, eq', neutral', captured'⟩ := second.lines b
  refine ⟨new ++ more, by rw [eq', eq, List.append_assoc], neutral_append neutral neutral', ?_⟩
  intro capturing
  rw [captured capturing, captured' (first.capture.trans capturing)]
  rfl

theorem landing (calm : Calm s s') : s'.landing s'.scope = s.landing s.scope := by
  rw [calm.scope]
  cases s.scope <;> simp [Sketch.landing, calm.opened]

theorem of_eq (scope : s'.scope = s.scope) (opened : s'.open?.isSome = s.open?.isSome)
    (author : s'.author = s.author) (capture : s'.capture = s.capture)
    (buffers : ∀ b, s'.buffer b = s.buffer b) : Calm s s' :=
  ⟨scope, opened, author, by rw [capture], fun b =>
    ⟨[], by rw [buffers, List.append_nil], fun _ _ => rfl, fun _ => rfl⟩⟩

variable (s)

theorem note (symbols : Symbols) (includes sprites : List String) (blocks : List Block)
    (globalNames localNames : List String) (events : List Event) :
    Calm s { s with symbols, includes, sprites, blocks, globalNames, localNames, events } :=
  of_eq rfl rfl rfl rfl fun b => by cases b <;> rfl

theorem refl : Calm s s :=
  note s s.symbols s.includes s.sprites s.blocks s.globalNames s.localNames s.events

theorem symbols (symbols : Symbols) : Calm s { s with symbols } :=
  note s _ s.includes s.sprites s.blocks s.globalNames s.localNames s.events

theorem declare (name : String) : Calm s (s.declare name) := by
  obtain ⟨globalNames, localNames, eq⟩ := declare_frame s name
  rw [eq]
  exact note s s.symbols s.includes s.sprites s.blocks _ _ s.events

theorem bearing_pushed (inPlace : Bool) (scope : Scope) (depth : Nat) (text : String)
    (number : Nat) (around : List (Nat × Cpp.Construct)) :
    Cpp.follow number around ((s.pushed inPlace scope depth text).map SketchLine.render) =
      (bearing text).turn (number + (s.pushed inPlace scope depth text).length - 1) around := by
  have marker (origin : Origin) (source : Nat) :
      bearing (SketchLine.marker origin depth source).render = .stays :=
    bearing_marker origin depth source
  have code (origin : Origin) :
      bearing (SketchLine.code origin depth text).render = bearing text :=
    bearing_code origin depth text
  unfold pushed
  split <;> simp [Cpp.follow, marker, code, Cpp.Bearing.turn]

variable {text : String}

theorem push (inPlace : Bool) (scope : Scope) (depth : Nat) (stays : Cpp.Stays text) :
    Calm s (s.push inPlace scope depth text) := by
  refine ⟨push_scope .., push_isSome_open .., push_author .., push_isSome_capture .., fun b => ?_⟩
  cases capturing : s.capture with
  | some texts =>
    refine ⟨[], ?_, fun _ _ => rfl, fun _ => rfl⟩
    rw [buffer_push_captured _ _ _ _ _ (by simp [capturing]), List.append_nil]
  | none =>
    refine ⟨_, buffer_push s inPlace scope depth text capturing b, ?_, by simp⟩
    split
    · intro number around
      rw [bearing_pushed, show bearing text = .stays from stays]
      rfl
    · exact fun _ _ => rfl

theorem emit (stays : Cpp.Stays text) : Calm s (s.emit text) :=
  push s true s.scope s.depth stays

theorem emitGlobal (stays : Cpp.Stays text) : Calm s (s.emitGlobal text) :=
  push s false .global 0 stays

variable {a : Action} {write : Sketch → Sketch}

theorem of_does {keeps : Bool} {s s' : Sketch} (does : Does a keeps s s')
    (steady : a.isSteady = true) (clean : a.Clean) : Calm s s' := by
  induction does with
  | line s _ line | elsewhere s _ line => exact push s _ _ _ (line.stays steady clean)
  | note s => exact note s _ _ _ s.blocks _ _ _
  | hoist s opened =>
    exact of_eq rfl (by simp [opened]) rfl rfl fun b => by cases b <;> simp [buffer, opened]
  | turn s blocks events =>
    exact note s s.symbols s.includes s.sprites blocks s.globalNames s.localNames events
  | trans _ _ first second => exact first.trans second

theorem perform (steady : a.isSteady = true) (clean : a.Clean) : Calm s (s.perform a) := by
  refine of_does (Does.perform s a ?_ ?_) steady clean
  all_goals
    rintro _ rfl
    cases steady

theorem buffer_captured (calm : ∀ s, Calm s (write s)) (b : Scope) :
    (s.captured write).2.buffer b = s.buffer b := by
  obtain ⟨new, eq, -, absent⟩ := (calm { s with capture := some [] }).lines b
  rw [absent rfl, List.append_nil] at eq
  cases b <;> exact eq

theorem captured (calm : ∀ s, Calm s (write s)) : Calm s (s.captured write).2 := by
  have inside := calm { s with capture := some [] }
  exact of_eq inside.scope inside.opened inside.author rfl (buffer_captured s calm)

theorem stays_inlineIf (begins : LeadsStatement text) : Cpp.Stays (text ++ " \x7d") :=
  stays_of_ends (leadsStatement_append _ begins) ((ends_ofList rfl).after _) (by decide)

theorem place : (st : Statement) → st.isBranch = true → st.Clean → (s : Sketch) →
    Calm s (s.place st)
  | .plain _ _, calm, clean, s => perform s (Action.isSteady_of_isCalm calm) clean
  | .inlineIf _ c thenBranch, calm, clean, s => by
    refine (captured s (place thenBranch calm clean.2)).trans (emit _ (stays_inlineIf ?_))
    simp only [toString_text, String.append_assoc]
    exact leadsStatement_append _ (leadsStatement_ofList (by decide))
  | .inlineIfElse _ c thenBranch elseBranch, calm, clean, s => by
    obtain ⟨first, second⟩ := Bool.and_eq_true_iff.1 calm
    refine ((captured s (place thenBranch first clean.2.1)).trans
      (captured _ (place elseBranch second clean.2.2))).trans (emit _ (stays_inlineIf ?_))
    simp only [toString_text, String.append_assoc]
    exact leadsStatement_append _ (leadsStatement_ofList (by decide))

theorem announce : Calm s s.announce := by
  have counted : Calm s { s with everyCount := s.everyCount + 1 } :=
    of_eq rfl rfl rfl rfl fun b => by cases b <;> rfl
  exact counted.trans (emitGlobal _ (stays_around _ (by decide) (by decide)))

theorem block {opening closing : String} {construct : Cpp.Construct} (depth : Nat)
    (opens : bearing opening = .opens construct) (closes : bearing closing = .closes)
    {t : Sketch} (inside : Calm (s.push false .loop depth opening) t) :
    Calm s (t.push false .loop depth closing) := by
  refine ⟨?_, ?_, ?_, ?_, fun b => ?_⟩
  · rw [push_scope, inside.scope, push_scope]
  · rw [push_isSome_open, inside.opened, push_isSome_open]
  · rw [push_author, inside.author, push_author]
  · rw [push_isSome_capture, inside.capture, push_isSome_capture]
  obtain ⟨new, eq, neutral, captured⟩ := inside.lines b
  have same : t.capture.isSome = s.capture.isSome := by
    rw [inside.capture, push_isSome_capture]
  cases capturing : s.capture.isSome with
  | true =>
    refine ⟨[], ?_, fun _ _ => rfl, fun _ => rfl⟩
    rw [buffer_push_captured _ _ _ _ _ (same.trans capturing), eq,
      captured (by simpa using capturing),
      buffer_push_captured _ _ _ _ _ capturing]
  | false =>
    rw [buffer_push _ _ _ _ _ (by simpa using same.trans capturing), eq,
      buffer_push _ _ _ _ _ (by simpa using capturing), List.append_assoc, List.append_assoc]
    refine ⟨_, rfl, ?_, by simp⟩
    by_cases here : b = .loop
    · subst here
      intro number around
      have here (t : Sketch) : Scope.loop = t.landing .loop := rfl
      rw [if_pos (here _), if_pos (here _), List.map_append, List.map_append, Cpp.follow_append,
        Cpp.follow_append, bearing_pushed, bearing_pushed, opens, closes, neutral]
      rfl
    · have unlike (t : Sketch) : b ≠ t.landing .loop := here
      rw [if_neg (unlike _), if_neg (unlike _), List.append_nil]
      exact neutral

theorem poll (id : Nat) (interval : String) : Calm s (s.poll id interval) := by
  have opens : bearing s!"if (millis() - _every_last_{id} >= {interval}) \x7b" =
      .opens .other := by
    refine bearing_of_heads ?_ ((ends_ofList rfl).after _)
    simp only [toString_text, String.append_assoc]
    exact (heads_ofList (by decide)).append _
  have first (t : Sketch) : Calm t (t.emitLoop 1 s!"_every_last_{id} = millis();") :=
    push t _ _ _ (stays_around _ (by decide) (by decide))
  have second (t : Sketch) : Calm t (t.emitLoop 1 s!"_every_task_{id}();") :=
    push t _ _ _ (stays_around _ (by decide) (by decide))
  exact block s 1 opens (by decide) ((first _).trans (second _))

end Calm

variable {a : Action} {block : Block}

theorem perform_opening (role : a.role = .opens block) (s : Sketch) :
    ∃ text top, s.perform a = (s.emit text).openBlock top ∧
      bearing text = .opens a.construct := by
  obtain ⟨text, top, eq, -, -, heads, ends⟩ := perform_opens role s
  exact ⟨text, top, eq, bearing_of_heads heads ends⟩

theorem perform_closing (role : a.role = .closes block) (s : Sketch) :
    ∃ t text, s.perform a = t.emit text ∧ Calm s t ∧ Cpp.bearing text = .closes := by
  have turned (t : Sketch) (blocks : List Block) (events : List Event) :
      Calm t { t with blocks, events } :=
    Calm.note t t.symbols t.includes t.sprites blocks t.globalNames t.localNames events
  by_cases divided : a = .endSelect
  · subst divided
    generalize left : (if s.blocks.head? == some (.select true) then s.emit "break;" else s) = t
    have calm : Calm s t := by
      rw [← left]
      split
      · exact Calm.emit s (by decide : Cpp.bearing _ = .stays)
      · exact Calm.refl s
    obtain ⟨blocks, events, eq, -⟩ := closeBlock_eq t (.select false) "\x7d"
    refine ⟨_, "\x7d", ?_, calm.trans (turned t blocks events), by decide⟩
    rw [← eq, ← left]
    rfl
  · obtain ⟨blocks, events, text, eq, -, -, begins, last, ends, other⟩ :=
      perform_closes role divided s
    exact ⟨_, text, eq, turned s blocks events, Cpp.bearing_closes begins ends other⟩

end Sketch

end BasicSketch
