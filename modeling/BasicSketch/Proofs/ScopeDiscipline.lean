import BasicSketch.Proofs.Chores
import Mathlib.Logic.Relation

set_option autoImplicit false

/-! The scopes of a sketch, for any statements in any order. -/

namespace BasicSketch

namespace Sketch

inductive Held where
  | scope (scope : Scope) (blocks : List Block) (open? : Option Procedure)
    (localNames : List String)
  | capture (texts : Option (List String))

/-- A sketch that is being written, and what is put away, innermost first. -/
structure Desk where
  sketch : Sketch
  held : List Held

/-- One move of writing. No move writes a line for a procedure from another scope. -/
inductive Move : Desk → Desk → Prop
  | push (s : Sketch) (k : List Held) (inPlace : Bool) (scope : Scope) (depth : Nat)
    (text : String) (here : scope = s.scope ∨ scope ≠ .procedure) :
    Move ⟨s, k⟩ ⟨s.push inPlace scope depth text, k⟩
  | note {s s' : Sketch} (k : List Held) (noted : Noted s s') : Move ⟨s, k⟩ ⟨s', k⟩
  | turn (s : Sketch) (k : List Held) (blocks : List Block) (events : List Event)
    (author : Option Statement) (line : Nat) (marked : List Scope) :
    Move ⟨s, k⟩ ⟨{ s with blocks, events, author, line, marked }, k⟩
  | enter (s : Sketch) (k : List Held) (routine : Scope) (outside : s.scope = .global)
    (plain : routine ≠ .procedure) : Move ⟨s, k⟩ ⟨{ s with scope := routine, localNames := [] }, k⟩
  | begins (s : Sketch) (k : List Held) (signature : String) (outside : s.scope = .global) :
    Move ⟨s, k⟩ ⟨{ s with
      scope := .procedure
      localNames := []
      open? := some { signature, header := [], hoisted := [], body := [] } }, k⟩
  | heads (s : Sketch) (k : List Held) :
    Move ⟨s, k⟩
      ⟨{ s with open? := s.open?.map fun p => { p with header := p.body, body := [] } }, k⟩
  | exit (s : Sketch) (k : List Held) (plain : s.scope ≠ .procedure) :
    Move ⟨s, k⟩ ⟨{ s with scope := .global }, k⟩
  | ends (s : Sketch) (k : List Held) (inside : s.scope = .procedure) :
    Move ⟨s, k⟩ ⟨{ s.finishProcedure with scope := .global }, k⟩
  | suspend (s : Sketch) (k : List Held) :
    Move ⟨s, k⟩ ⟨{ s with scope := .global, blocks := [], open? := none, localNames := [] },
      .scope s.scope s.blocks s.open? s.localNames :: k⟩
  | resume (s : Sketch) (k : List Held) (scope : Scope) (blocks : List Block)
    (open? : Option Procedure) (localNames : List String) (outside : s.scope = .global) :
    Move ⟨s, .scope scope blocks open? localNames :: k⟩
      ⟨{ s with scope, blocks, open?, localNames }, k⟩
  | capture (s : Sketch) (k : List Held) :
    Move ⟨s, k⟩ ⟨{ s with capture := some [] }, .capture s.capture :: k⟩
  | release (s : Sketch) (k : List Held) (texts : Option (List String)) :
    Move ⟨s, .capture texts :: k⟩ ⟨{ s with capture := texts }, k⟩

abbrev Moves : Desk → Desk → Prop := Relation.ReflTransGen Move

variable (s : Sketch)

theorem scope_endProcedure : s.endProcedure.scope = .global := by
  unfold endProcedure
  split
  · assumption
  all_goals rfl

theorem scope_leave (reason : String) : (s.leave reason).scope = .global := by
  unfold leave
  split
  · simpa using ‹(s.scope == .global) = true›
  · exact scope_endProcedure _

namespace Moves

variable {k : List Held}

theorem push (inPlace : Bool) (scope : Scope) (depth : Nat) (text : String)
    (here : scope = s.scope ∨ scope ≠ .procedure) :
    Moves ⟨s, k⟩ ⟨s.push inPlace scope depth text, k⟩ :=
  .single (.push s k inPlace scope depth text here)

theorem emit (text : String) : Moves ⟨s, k⟩ ⟨s.emit text, k⟩ :=
  push s true s.scope s.depth text (.inl rfl)

theorem emitGlobal (text : String) : Moves ⟨s, k⟩ ⟨s.emitGlobal text, k⟩ :=
  push s false .global 0 text (.inr (by simp))

theorem emitLoop (extra : Nat) (text : String) : Moves ⟨s, k⟩ ⟨s.emitLoop extra text, k⟩ :=
  push s false .loop (1 + extra) text (.inr (by simp))

theorem report (e : Event) : Moves ⟨s, k⟩ ⟨s.report e, k⟩ :=
  .single (.turn s k s.blocks (s.events ++ [e]) s.author s.line s.marked)

theorem facing (author : Option Statement) (line : Nat) (marked : List Scope) :
    Moves ⟨s, k⟩ ⟨{ s with author, line, marked }, k⟩ :=
  .single (.turn s k s.blocks s.events author line marked)

theorem does {a : Action} {keeps : Bool} {s s' : Sketch} (does : Does a keeps s s') :
    Moves ⟨s, k⟩ ⟨s', k⟩ := by
  induction does with
  | line s => exact push s _ _ _ _ (.inl rfl)
  | elsewhere s _ _ _ apart => exact push s _ _ _ _ (.inr apart)
  | note s _ _ quiet => exact .single (.note k (.of_names s quiet))
  | hoist s opened => exact .single (.note k (.hoist s opened))
  | turn s blocks events => exact .single (.turn s k blocks events s.author s.line s.marked)
  | trans _ _ first second => exact first.trans second

theorem declare (name : String) : Moves ⟨s, k⟩ ⟨s.declare name, k⟩ := by
  obtain ⟨_, _, eq⟩ := declare_frame s name
  rw [eq]
  exact .single (.note k (.of_names s (.of_eq rfl)))

theorem chores {s s' : Sketch} (chores : Chores s s') : Moves ⟨s, k⟩ ⟨s', k⟩ := by
  induction chores with
  | push s inPlace scope depth text here => exact push s inPlace scope depth text here
  | note s symbols includes sprites blocks everyCount events =>
    refine .tail (.single (.turn s k blocks events s.author s.line s.marked)) (.note k ?_)
    exact ⟨fun b => by cases b <;> rfl, rfl, rfl, rfl, rfl, rfl, rfl, rfl, rfl, rfl, .of_eq rfl⟩
  | trans _ _ first second => exact first.trans second

theorem endProcedure : Moves ⟨s, k⟩ ⟨s.endProcedure, k⟩ := by
  have dropped (closer : String) : (s.dropBlocks closer).scope = s.scope := by
    obtain ⟨_, _, eq⟩ := dropBlocks_frame s closer
    rw [eq]
  unfold Sketch.endProcedure
  cases inside : s.scope with
  | global => exact report s _
  | setup | loop =>
    exact (chores (.dropBlocks s _)).tail (.exit _ k (by simp [dropped, inside]))
  | procedure =>
    -- the closing line goes to the procedure before it joins the finished ones
    refine ((chores (.dropBlocks s "End")).trans (push _ false .procedure 0 "\x7d" ?_)).tail
      (.ends _ k ?_)
    · exact .inl ((dropped "End").trans inside).symm
    · rw [push_scope, dropped, inside]

theorem leave (reason : String) : Moves ⟨s, k⟩ ⟨s.leave reason, k⟩ := by
  unfold Sketch.leave
  split
  · exact .refl
  · exact (report s _).trans (endProcedure _)

theorem enterRoutine {routine : Scope} (plain : routine ≠ .procedure) :
    Moves ⟨s, k⟩ ⟨s.enterRoutine routine, k⟩ :=
  (leave s _).tail (.enter _ k routine (scope_leave s _) plain)

theorem enterProcedure (signature header : String) :
    Moves ⟨s, k⟩ ⟨s.enterProcedure signature header, k⟩ := by
  refine ((leave s "next procedure").tail (.begins _ k signature (scope_leave s _))).trans ?_
  exact (push _ false .procedure 0 header (.inl rfl)).tail (.heads _ k)

theorem declares {α : Type} (name : α → String) (names : List α) (s : Sketch) :
    Moves ⟨s, k⟩ ⟨names.foldl (fun s a => s.declare (name a)) s, k⟩ := by
  induction names generalizing s with
  | nil => exact .refl
  | cons a rest ih => exact (declare s (name a)).trans (ih (s.declare (name a)))

theorem openProcedure (h : ProcedureHeader) : Moves ⟨s, k⟩ ⟨s.openProcedure h, k⟩ :=
  ((chores (.parameterTexts s h.parameters)).trans ((enterProcedure _ _ _).trans
    (declare _ h.name))).trans (declares Parameter.name h.parameters _)

theorem procedureStart (h : ProcedureHeader) : Moves ⟨s, k⟩ ⟨s.procedureStart h, k⟩ := by
  unfold Sketch.procedureStart
  split
  · exact enterRoutine s (by simp)
  · split
    · exact enterRoutine s (by simp)
    · exact openProcedure s h

theorem perform (a : Action) : Moves ⟨s, k⟩ ⟨s.perform a, k⟩ := by
  cases a with
  | procedureStart header => exact procedureStart s header
  | procedureEnd _ => exact endProcedure s
  | _ => exact does (.perform s _ (by simp) (by simp))

theorem aside {inside : Sketch → Sketch}
    (moves : ∀ s k, Moves ⟨s, k⟩ ⟨inside s, k⟩) : Moves ⟨s, k⟩ ⟨s.aside inside, k⟩ :=
  (((Relation.ReflTransGen.single (.suspend s k)).trans (moves _ _)).trans
    (leave _ "end of Every block")).tail (.resume _ k _ _ _ _ (scope_leave _ _))

theorem captured {write : Sketch → Sketch}
    (moves : ∀ s k, Moves ⟨s, k⟩ ⟨write s, k⟩) : Moves ⟨s, k⟩ ⟨(s.captured write).2, k⟩ :=
  ((Relation.ReflTransGen.single (.capture s k)).trans (moves _ _)).tail (.release _ k s.capture)

theorem emitEvery (interval : Expr) {body : Sketch → Sketch}
    (moves : ∀ s k, Moves ⟨s, k⟩ ⟨body s, k⟩) : Moves ⟨s, k⟩ ⟨s.emitEvery interval body, k⟩ := by
  have counted : Moves ⟨s, k⟩ ⟨{ s with everyCount := s.everyCount + 1 }, k⟩ :=
    chores (.note s s.symbols s.includes s.sprites s.blocks (s.everyCount + 1) s.events)
  refine counted.trans ((emitGlobal _ _).trans (Relation.ReflTransGen.trans (aside _ ?_)
    ((emitLoop _ 0 _).trans ((emitLoop _ 1 _).trans ((emitLoop _ 1 _).trans (emitLoop _ 0 _))))))
  intro s' k'
  dsimp only
  refine Relation.ReflTransGen.trans ?_ (endProcedure _)
  refine Relation.ReflTransGen.trans ?_ (facing _ _ s.line [])
  exact (enterProcedure s' _ _).trans (moves _ k')

end Moves

mutual

theorem place_moves (s : Sketch) (k : List Held) : (st : Statement) →
    Moves ⟨s, k⟩ ⟨s.place st, k⟩
  | .plain _ action => Moves.perform s action
  | .inlineIf _ _ thenBranch =>
    (Moves.captured s fun s k => place_moves s k thenBranch).trans (Moves.emit _ _)
  | .inlineIfElse _ _ thenBranch elseBranch =>
    ((Moves.captured s fun s k => place_moves s k thenBranch).trans
      (Moves.captured _ fun s k => place_moves s k elseBranch)).trans (Moves.emit _ _)
  | .every _ interval body => Moves.emitEvery s interval fun s k => statements_moves s k body

theorem statements_moves (s : Sketch) (k : List Held) : (sts : List Statement) →
    Moves ⟨s, k⟩ ⟨s.statements sts, k⟩
  | [] => .refl
  | first :: rest =>
    (((Moves.facing s (some first) first.line []).trans (place_moves _ k first)).trans
      (Moves.facing _ s.author _ _)).trans (statements_moves _ k rest)

end

def Unwound : Option (List String) → List Held → Prop
  | texts, [] => texts = none
  | texts, .scope .. :: below => Unwound texts below
  | texts, .capture before :: below => texts.isSome = true ∧ Unwound before below

structure Orderly (d : Desk) : Prop where
  opened : d.sketch.scope = .procedure ↔ d.sketch.open?.isSome = true
  distinct : (d.sketch.procedures.map Procedure.signature).Nodup
  listed : (d.sketch.procedures.map Procedure.signature).Perm d.sketch.signatures
  held : ∀ scope blocks open? names, Held.scope scope blocks open? names ∈ d.held →
    (scope = .procedure ↔ open?.isSome = true)
  unwound : Unwound d.sketch.capture d.held

variable {k : List Held} {s : Sketch} {d : Desk}

theorem unwound_of_isSome {texts texts' : Option (List String)}
    (same : texts'.isSome = texts.isSome) (unwound : Unwound texts k) : Unwound texts' k := by
  induction k with
  | nil =>
    rw [Unwound] at unwound ⊢
    simpa [unwound] using same
  | cons h below ih =>
    cases h with
    | scope => exact ih unwound
    | capture => exact ⟨same.trans unwound.1, unwound.2⟩

theorem Orderly.frame {s' : Sketch} (orderly : Orderly ⟨s, k⟩)
    (opened : s'.scope = .procedure ↔ s'.open?.isSome = true)
    (procedures : s'.procedures = s.procedures) (signatures : s'.signatures = s.signatures)
    (capture : s'.capture.isSome = s.capture.isSome) : Orderly ⟨s', k⟩ where
  opened := opened
  distinct := by simpa only [procedures] using orderly.distinct
  listed := by simpa only [procedures, signatures] using orderly.listed
  held := orderly.held
  unwound := unwound_of_isSome capture orderly.unwound

theorem addProcedure_signatures (p : Procedure)
    (distinct : (s.procedures.map Procedure.signature).Nodup)
    (listed : (s.procedures.map Procedure.signature).Perm s.signatures) :
    ((s.addProcedure p).procedures.map Procedure.signature).Nodup ∧
      ((s.addProcedure p).procedures.map Procedure.signature).Perm
        (s.addProcedure p).signatures := by
  by_cases again : s.procedures.any (·.signature == p.signature) = true
  · have mem : p.signature ∈ s.procedures.map Procedure.signature := by
      simpa using again
    have others : (s.procedures.filter (·.signature != p.signature)).map Procedure.signature =
        (s.procedures.map Procedure.signature).erase p.signature := by
      rw [distinct.erase_eq_filter, List.filter_map]
      rfl
    have unchanged : (s.addProcedure p).signatures = s.signatures := by
      simp [addProcedure, again, listed.mem_iff.1 mem, report]
    have replaced : (s.addProcedure p).procedures.map Procedure.signature =
        (s.procedures.map Procedure.signature).erase p.signature ++ [p.signature] := by
      rw [← others]
      simp [addProcedure, again]
    have same := (List.perm_append_singleton p.signature
      ((s.procedures.map Procedure.signature).erase p.signature)).trans
      (List.perm_cons_erase mem).symm
    rw [replaced, unchanged]
    exact ⟨same.nodup_iff.2 distinct, same.trans listed⟩
  · have fresh : p.signature ∉ s.procedures.map Procedure.signature := by
      simpa using again
    have added : (s.addProcedure p).procedures.map Procedure.signature =
        s.procedures.map Procedure.signature ++ [p.signature] := by
      simp [addProcedure, again]
    have noted : (s.addProcedure p).signatures = s.signatures ++ [p.signature] := by
      simp [addProcedure, again, mt listed.mem_iff.2 fresh]
    rw [added, noted]
    exact ⟨List.nodup_append.2 ⟨distinct, by simp, by simpa using fresh⟩,
      listed.append_right _⟩

theorem Orderly.ends (orderly : Orderly ⟨s, k⟩) :
    Orderly ⟨{ s.finishProcedure with scope := .global }, k⟩ := by
  unfold finishProcedure
  cases opened : s.open? with
  | none => exact orderly.frame (by simp [opened]) rfl rfl rfl
  | some p =>
    obtain ⟨distinct, listed⟩ :=
      addProcedure_signatures (s := { s with open? := none }) p orderly.distinct orderly.listed
    obtain ⟨procedures, signatures, events, eq, -⟩ := addProcedure_frame { s with open? := none } p
    dsimp only
    rw [eq] at distinct listed ⊢
    exact ⟨by simp, distinct, listed, orderly.held, orderly.unwound⟩

theorem Move.orderly {d' : Desk} (move : Move d d') (orderly : Orderly d) : Orderly d' := by
  cases move with
  | push s k inPlace scope depth text _ =>
    exact orderly.frame (by simpa using orderly.opened) (by simp) (by simp) (by simp)
  | note k noted =>
    refine orderly.frame ?_ noted.procedures noted.signatures (by rw [noted.capture])
    have same := congrArg Option.isSome noted.heading
    rw [Option.isSome_map, Option.isSome_map] at same
    rw [noted.scope, same]
    exact orderly.opened
  | turn => exact orderly.frame orderly.opened rfl rfl rfl
  | enter s k routine outside plain =>
    refine orderly.frame ?_ rfl rfl rfl
    have closed := orderly.opened
    simp only [outside] at closed
    simpa [plain] using closed
  | begins s k signature outside => exact orderly.frame (by simp) rfl rfl rfl
  | heads s k => exact orderly.frame (by simpa using orderly.opened) rfl rfl rfl
  | exit s k plain =>
    refine orderly.frame ?_ rfl rfl rfl
    have closed := orderly.opened
    simpa [plain] using closed
  | ends s k inside => exact orderly.ends
  | suspend s k =>
    refine ⟨by simp, orderly.distinct, orderly.listed, ?_, orderly.unwound⟩
    intro scope blocks open? names mem
    rcases List.mem_cons.1 mem with here | below
    · cases here
      exact orderly.opened
    · exact orderly.held scope blocks open? names below
  | resume s k scope blocks open? names outside =>
    exact ⟨orderly.held scope blocks open? names List.mem_cons_self, orderly.distinct,
      orderly.listed, fun _ _ _ _ mem => orderly.held _ _ _ _ (List.mem_cons_of_mem _ mem),
      orderly.unwound⟩
  | capture s k =>
    refine ⟨orderly.opened, orderly.distinct, orderly.listed, ?_, rfl, orderly.unwound⟩
    intro scope blocks open? names mem
    rcases List.mem_cons.1 mem with here | below
    · cases here
    · exact orderly.held scope blocks open? names below
  | release s k texts =>
    exact ⟨orderly.opened, orderly.distinct, orderly.listed,
      fun _ _ _ _ mem => orderly.held _ _ _ _ (List.mem_cons_of_mem _ mem), orderly.unwound.2⟩

theorem Moves.orderly {d' : Desk} (moves : Moves d d') (orderly : Orderly d) : Orderly d' := by
  induction moves with
  | refl => exact orderly
  | tail _ move ih => exact move.orderly ih

theorem orderly_empty (options : Options) : Orderly ⟨empty options, []⟩ :=
  ⟨by simp [empty], List.nodup_nil, .nil, by simp, rfl⟩

theorem Orderly.lands (orderly : Orderly d) (scope : Scope)
    (here : scope = d.sketch.scope ∨ scope ≠ .procedure) : d.sketch.landing scope = scope := by
  cases scope with
  | procedure =>
    have inside : d.sketch.scope = .procedure := by simpa [eq_comm] using here
    rw [landing, if_pos (orderly.opened.1 inside)]
  | _ => rfl

end Sketch

open Sketch

end BasicSketch
