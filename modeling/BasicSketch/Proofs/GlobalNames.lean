import BasicSketch.Proofs.History

set_option autoImplicit false

/-! The global names at a moment. -/

namespace BasicSketch

open Text

/-- The names that are declared globally at a moment. Constants are global wherever they stand. -/
def Moment.globals (m : Moment) : List String :=
  match m.deed with
  | .statement (.plain _ (.const name _)) => [name]
  | .statement (.plain _ (.arrayLiteral a)) =>
    if a.constant || m.home.scope == .global then [a.name] else []
  | .declares _ d => if m.home.scope == .global then [d.name] else []
  | _ => []

namespace Sketch

def addName (names : List String) (name : String) : List String :=
  if names.contains (lower name) then names else names ++ [lower name]

variable {name : String} {names : List String} {s : Sketch}

theorem addName_known (known : names.contains (lower name) = true) : addName names name = names :=
  if_pos known

theorem mem_addName {w : String} : w ∈ addName names name ↔ w ∈ names ∨ lower name = w := by
  unfold addName
  split
  · rename_i known
    exact ⟨Or.inl, fun either => either.elim id fun same => same ▸ by simpa using known⟩
  · simp [eq_comm]

def noteGlobals (names : List String) (m : Moment) : List String := m.globals.foldl addName names

theorem mem_foldl_noteGlobals {ms : List Moment} {w : String} :
    w ∈ ms.foldl noteGlobals names ↔ w ∈ names ∨ ∃ m ∈ ms, ∃ y ∈ m.globals, lower y = w := by
  have added (new names : List String) :
      w ∈ new.foldl addName names ↔ w ∈ names ∨ ∃ y ∈ new, lower y = w := by
    induction new generalizing names with
    | nil => simp
    | cons y rest ih =>
      simp only [List.foldl_cons, ih, mem_addName, List.mem_cons, exists_eq_or_imp, or_assoc]
  induction ms generalizing names with
  | nil => simp
  | cons m rest ih =>
    simp only [List.foldl_cons, ih, noteGlobals, added, List.mem_cons, exists_eq_or_imp, or_assoc]

/-- The global names once a name is declared where the sketch stands. -/
def after (s : Sketch) (name : String) : List String :=
  if s.scope == .global then addName s.globalNames name else s.globalNames

theorem after_known (known : s.declaresHere name = true) : s.after name = s.globalNames := by
  unfold declaresHere at known
  unfold after
  cases inside : s.scope with
  | global =>
    rw [inside] at known
    exact addName_known known
  | _ => rfl

theorem globalNames_declareGlobal (s : Sketch) (name : String) :
    (s.declareGlobal name).globalNames = addName s.globalNames name := by
  unfold declareGlobal addName isGlobal
  split <;> rfl

theorem globalNames_declare (s : Sketch) (name : String) :
    (s.declare name).globalNames = s.after name := by
  unfold declare after
  cases s.scope with
  | global => exact globalNames_declareGlobal s name
  | _ =>
    dsimp only
    split <;> rfl

theorem globalNames_emitDeclaration (s : Sketch) (isStatic : Bool) (d : Declaration) :
    (s.emitDeclaration isStatic d).globalNames = s.after d.name := by
  obtain ⟨events, -, eq⟩ := emitDeclaration_eq s isStatic d
  rw [eq]
  split
  · rename_i skips
    rcases Bool.or_eq_true_iff.1 skips with reuses | known
    · -- outside of `setup` and `loop` no global is reused
      have inside : ¬(s.scope == .global) = true := fun outside => by
        simp [beq_iff_eq.1 outside] at reuses
      exact (if_neg inside).symm
    · exact (after_known known).symm
  · exact (names_push ..).1.trans (globalNames_declare s d.name)

theorem globalNames_emitConst (s : Sketch) (name : String) (value : Expr) :
    (s.emitConst name value).globalNames = addName s.globalNames name := by
  obtain ⟨events, -, eq⟩ := emitConst_eq s name value
  rw [eq]
  split
  · rename_i known
    exact (addName_known known).symm
  · exact (names_push ..).1.trans (globalNames_declareGlobal s name)

theorem globalNames_emitArrayLiteral (s : Sketch) (a : ArrayLiteral) :
    (s.emitArrayLiteral a).globalNames =
      if a.constant then addName s.globalNames a.name else s.after a.name := by
  obtain ⟨events, -, eq⟩ := emitArrayLiteral_eq s a
  rw [eq, skipsLiteral]
  cases a.constant with
  | true =>
    simp only [if_true]
    split
    · rename_i known
      exact (addName_known known).symm
    · exact (names_push ..).1.trans (globalNames_declareGlobal s a.name)
  | false =>
    simp only [Bool.false_eq_true, if_false]
    split
    · rename_i known
      exact (after_known known).symm
    · exact (names_push ..).1.trans (globalNames_declare s a.name)

theorem globalNames_hoist (s : Sketch) (name : String) :
    (s.hoist name).globalNames = s.globalNames := by
  rcases hoist_cases s name with same | ⟨-, ⟨-, eq⟩ | ⟨q, -, eq⟩⟩
  · rw [same]
  · rw [eq]
  · rw [eq]

theorem log_globals : Log globalNames noteGlobals where
  rests _ same := same
  silent _ _ _ st parted := by
    cases st with
    | plain n a =>
      cases a with
      | dim | static | procedureStart => rfl
      | _ => cases parted
    | _ => rfl
  performs {home s} n a scope whole := by
    cases a with
    | const name value => exact globalNames_emitConst s name value
    | arrayLiteral literal =>
      refine (globalNames_emitArrayLiteral s literal).trans ?_
      unfold after noteGlobals Moment.globals
      dsimp only
      rw [scope]
      cases literal.constant with
      | true => rfl
      | false =>
        rw [Bool.false_or, if_neg Bool.false_ne_true]
        split <;> rfl
    | procedureEnd kind => exact (KeepsNames.endProcedure s).globalNames
    | assign target value =>
      refine (KeepsNames.chores (.emit _ _)).globalNames.trans ?_
      split
      · exact globalNames_hoist s target
      · rfl
    | dim | static | procedureStart => cases whole
    | _ => exact (KeepsNames.chores (.perform s rfl)).globalNames
  declares {home s} isStatic d scope := by
    refine (globalNames_emitDeclaration s isStatic d).trans ?_
    unfold after noteGlobals Moment.globals
    dsimp only
    rw [scope]
    split <;> rfl
  takes _ _ s p := by
    unfold parameterText
    dsimp only
    split <;> rfl
  supplies _ _ _ _ := rfl

end Sketch

open Sketch

def Undeclared (ms : List Moment) (x : String) : Prop :=
  ∀ m ∈ ms, ∀ y ∈ m.globals, ¬ sameWord y x = true

theorem isGlobal_moment {options : Options} {sts : List Statement} {earlier later : List Moment}
    {m : Moment} (split : momentsOf options sts = earlier ++ m :: later) (x : String) :
    m.sketch.isGlobal x = false ↔ Undeclared earlier x := by
  have names : m.sketch.globalNames = earlier.foldl noteGlobals [] := log_globals.known_at split
  have seen : lower x ∈ m.sketch.globalNames ↔
      ∃ m ∈ earlier, ∃ y ∈ m.globals, lower y = lower x := by
    rw [names, mem_foldl_noteGlobals]
    simp
  rw [isGlobal, Bool.eq_false_iff, ne_eq, List.contains_iff_mem, seen]
  simp [Undeclared, sameWord]

end BasicSketch
