import BasicSketch.Proofs.Performing

set_option autoImplicit false

/-! What most actions do. -/

namespace BasicSketch

namespace Sketch

inductive Chores : Sketch → Sketch → Prop
  | push (s : Sketch) (inPlace : Bool) (scope : Scope) (depth : Nat) (text : String)
    (here : scope = s.scope ∨ scope ≠ .procedure) : Chores s (s.push inPlace scope depth text)
  | note (s : Sketch) (symbols : Symbols) (includes sprites : List String) (blocks : List Block)
    (everyCount : Nat) (events : List Event) :
    Chores s { s with symbols, includes, sprites, blocks, everyCount, events }
  | trans {s s' s'' : Sketch} (first : Chores s s') (second : Chores s' s'') : Chores s s''

theorem Does.chores {a : Action} {keeps : Bool} {s s' : Sketch} (does : Does a keeps s s')
    (chore : a.isChore = true) : Chores s s' := by
  induction does with
  | line s => exact .push s _ _ _ _ (.inl rfl)
  | elsewhere s _ _ _ apart => exact .push s _ _ _ _ (.inr apart)
  | note s _ _ _ _ named =>
    obtain ⟨rfl, rfl⟩ := named chore
    exact .note s _ _ _ s.blocks s.everyCount _
  | hoist s _ assigns =>
    obtain ⟨v, rfl⟩ := assigns
    cases chore
  | turn s blocks events => exact .note s s.symbols s.includes s.sprites blocks s.everyCount events
  | trans _ _ first second => exact first.trans second

theorem Does.symbols_eq {a : Action} {keeps : Bool} {s s' : Sketch} (does : Does a keeps s s')
    (quiet : a.isQuiet = true) : s'.symbols = s.symbols := by
  induction does with
  | line | elsewhere => exact push_symbols ..
  | note s _ _ _ still => exact still quiet
  | hoist | turn => rfl
  | trans _ _ first second => exact second.trans first

namespace Chores

variable (s : Sketch)

theorem emit (text : String) : Chores s (s.emit text) := push s true s.scope s.depth text (.inl rfl)

theorem emitGlobal (text : String) : Chores s (s.emitGlobal text) :=
  push s false .global 0 text (.inr (by simp))

theorem emitLoop (extra : Nat) (text : String) : Chores s (s.emitLoop extra text) :=
  push s false .loop (1 + extra) text (.inr (by simp))

theorem symbols (symbols : Symbols) : Chores s { s with symbols } :=
  note s symbols s.includes s.sprites s.blocks s.everyCount s.events

theorem report (e : Event) : Chores s (s.report e) :=
  note s s.symbols s.includes s.sprites s.blocks s.everyCount (s.events ++ [e])

theorem dropBlocks (closer : String) : Chores s (s.dropBlocks closer) := by
  obtain ⟨blocks, events, eq⟩ := dropBlocks_frame s closer
  rw [eq]
  exact note s s.symbols s.includes s.sprites blocks s.everyCount events

theorem parameterTexts (ps : List Parameter) : Chores s (s.parameterTexts ps).2.2 := by
  obtain ⟨σ, eq, -⟩ := parameterTexts_frame s ps
  rw [eq]
  exact symbols s σ

theorem perform {a : Action} (chore : a.isChore = true) : Chores s (s.perform a) :=
  (Does.chore s chore).chores chore

end Chores

end Sketch

end BasicSketch
