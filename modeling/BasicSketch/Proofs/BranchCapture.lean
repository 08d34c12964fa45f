import BasicSketch.Proofs.BranchBraces
import BasicSketch.Proofs.TwoWritings

set_option autoImplicit false

/-! What the branch of a single-line `If` writes elsewhere. -/

namespace BasicSketch

def Statement.goesElsewhere : Statement → Bool
  | .plain _ (.const ..) | .plain _ (.sprite .create ..) | .every .. => true
  | .plain _ (.arrayLiteral a) => a.constant
  | _ => false

namespace Sketch

def knows (s : Sketch) : Statement → Bool
  | .plain _ (.const name _) => s.isGlobal name
  | .plain _ (.arrayLiteral a) => s.isGlobal a.name
  | .plain _ (.sprite _ sprite _) => s.sprites.contains sprite
  | _ => false

def strays (s s' : Sketch) (b : Scope) : List SketchLine :=
  ((s'.buffer b).drop (s.buffer b).length).filter fun l => !l.inPlace

section Strays

variable {s s' t : Sketch} {b : Scope}

theorem strays_append {new : List SketchLine} (grown : s'.buffer b = s.buffer b ++ new) :
    s.strays s' b = new.filter fun l => !l.inPlace := by
  rw [strays, grown, List.drop_left]

theorem strays_self (same : s'.buffer b = s.buffer b) : s.strays s' b = [] :=
  strays_append (same.trans (List.append_nil _).symm)

theorem strays_inPlace (same : t.buffer b = s.buffer b) (scope : Scope) (depth : Nat)
    (text : String) : s.strays (t.push true scope depth text) b = [] := by
  cases capturing : t.capture with
  | some texts =>
    have kept := buffer_push_captured t true scope depth text (by simp [capturing]) b
    exact strays_self (kept.trans same)
  | none =>
    have grown := buffer_push t true scope depth text capturing b
    rw [same] at grown
    rw [strays_append grown, List.filter_eq_nil_iff]
    intro l mem
    split at mem
    · simp [Grows.pushed_inPlace t true scope depth text l mem]
    · cases mem

theorem strays_emitGlobal {text : String}
    (grown : (t.emitGlobal text).buffer .global <+: s'.buffer .global) (writing : t.capture = none)
    (same : t.globals = s.globals) : s.strays s' .global ≠ [] := by
  obtain ⟨more, eq⟩ := grown
  have lines : s'.buffer .global =
      s.buffer .global ++ (t.pushed false .global 0 text ++ more) := by
    rw [← List.append_assoc, show s.buffer .global = t.buffer .global from same.symm, ← eq]
    exact congrArg (· ++ more) (buffer_push t false .global 0 text writing .global)
  have mem : SketchLine.code ⟨t.author, false⟩ 0 text ∈ t.pushed false .global 0 text := by
    unfold Sketch.pushed
    split <;> simp
  rw [strays_append lines]
  intro absent
  exact List.filter_eq_nil_iff.1 absent _ (List.mem_append_left more mem) rfl

theorem prefix_push (s : Sketch) (inPlace : Bool) (scope : Scope) (depth : Nat) (text : String)
    (b : Scope) : s.buffer b <+: (s.push inPlace scope depth text).buffer b := by
  obtain ⟨new, eq, -⟩ := Adds.buffer_push_allows s inPlace scope depth text b
  exact ⟨new, eq.symm⟩

theorem strays_iff {known : Bool} (yes : known = true → ∀ b, s.strays s' b = [])
    (no : known = false → s.strays s' .global ≠ []) :
    (∀ b, b ≠ .procedure → s.strays s' b = []) ↔ known = true := by
  cases known with
  | true => exact iff_of_true (fun b _ => yes rfl b) rfl
  | false => exact iff_of_false (fun absent => no rfl (absent .global (by simp))) (by simp)

end Strays

section Alone

variable {s : Sketch}

variable (writing : s.capture = none)

include writing

theorem strays_const (name : String) (value : Expr) :
    (∀ b, b ≠ .procedure → s.strays (s.emitConst name value) b = []) ↔ s.isGlobal name = true := by
  obtain ⟨globalNames, declared⟩ := declareGlobal_frame s name
  obtain ⟨events, -, eq⟩ := emitConst_eq s name value
  refine strays_iff (fun known b => ?_) fun new => ?_
  · rw [eq, if_pos known]
    exact strays_self (by cases b <;> rfl)
  · rw [eq, if_neg (Bool.eq_false_iff.1 new), declared]
    exact strays_emitGlobal List.prefix_rfl writing rfl

theorem strays_arrayLiteral {a : ArrayLiteral} (constant : a.constant = true) :
    (∀ b, b ≠ .procedure → s.strays (s.emitArrayLiteral a) b = []) ↔ s.isGlobal a.name = true := by
  obtain ⟨globalNames, declared⟩ := declareGlobal_frame s a.name
  obtain ⟨events, -, eq⟩ := emitArrayLiteral_eq s a
  rw [eq, skipsLiteral]
  simp only [constant, if_true, declared]
  refine strays_iff (fun known b => ?_) fun new => ?_
  · rw [if_pos known]
    exact strays_self (by cases b <;> rfl)
  · rw [if_neg (Bool.eq_false_iff.1 new)]
    exact strays_emitGlobal List.prefix_rfl writing rfl

theorem strays_createSprite (sprite : String) (arguments : List Expr) :
    (∀ b, b ≠ .procedure → s.strays (s.emitSprite .create sprite arguments) b = []) ↔
      s.sprites.contains sprite = true := by
  unfold emitSprite createSprite
  dsimp only
  rw [show s.setDrawn.sprites = s.sprites from rfl]
  refine strays_iff (fun known b => ?_) fun new => ?_
  · rw [if_pos known]
    exact strays_inPlace (by cases b <;> rfl) _ _ _
  · rw [if_neg (Bool.eq_false_iff.1 new)]
    exact strays_emitGlobal ((prefix_push ..).trans (prefix_push ..)) writing rfl

theorem strays_every (interval : Expr) (body : List Statement) :
    s.strays (s.emitEvery interval fun s => s.statements body) .global ≠ [] := by
  obtain ⟨-, texts, task, -⟩ := Beside.everyTask (s := s) rfl body
  obtain ⟨new, eq, -⟩ := task.lines .global (by simp)
  have polled (t : Sketch) (id : Nat) (interval : String) :
      t.buffer .global <+: (t.poll id interval).buffer .global :=
    (((prefix_push ..).trans (prefix_push ..)).trans (prefix_push ..)).trans (prefix_push ..)
  have begun : s.announce.buffer .global <+:
      (s.emitEvery interval fun s => s.statements body).buffer .global := by
    rw [emitEvery_eq]
    exact List.IsPrefix.trans ⟨new, eq.symm⟩ (polled (Sketch.resume _ s.announce) _ _)
  exact strays_emitGlobal (t := { s with everyCount := s.everyCount + 1 }) begun writing rfl

theorem strays_place {st : Statement} (elsewhere : st.goesElsewhere = true) :
    (∀ b, b ≠ .procedure → s.strays (s.place st) b = []) ↔ s.knows st = true := by
  cases st with
  | inlineIf | inlineIfElse => cases elsewhere
  | every line interval body =>
    rw [place]
    exact strays_iff (by simp [knows]) fun _ => strays_every writing interval body
  | plain line action =>
    rw [place]
    cases action with
    | const name value => exact strays_const writing name value
    | arrayLiteral a => exact strays_arrayLiteral writing elsewhere
    | sprite command sprite arguments =>
      cases command with
      | create => exact strays_createSprite writing sprite arguments
      | _ => cases elsewhere
    | _ => cases elsewhere

end Alone

theorem apart_place {s c : Sketch} (same : s.outline = c.outline) {st : Statement}
    (elsewhere : st.goesElsewhere = true) : Apart s c (s.place st) (c.place st) := by
  cases st with
  | inlineIf | inlineIfElse => cases elsewhere
  | every line interval body =>
    rw [place, place]
    exact apart_every same interval body
  | plain line action =>
    have plain : action.isPlain = true := by
      cases action <;> first | rfl | cases elsewhere
    have unfinished {keeps : Bool} {s s' : Sketch} (does : Does action keeps s s') :
        s'.procedures = s.procedures := by
      induction does with
      | line | elsewhere => exact push_procedures ..
      | note | hoist | turn => rfl
      | trans _ _ first second => exact second.trans first
    have finishes (t : Sketch) (texts : List String) : Finishes texts t (t.perform action) := by
      intro p here
      rw [unfinished (.plain t plain)] at here
      exact .inl here
    obtain ⟨still, texts, here, there⟩ := Beside.place same (.plain line action)
    exact ⟨still, texts, ⟨here, finishes s texts⟩, there, finishes c texts⟩

theorem buffer_place_captured {s : Sketch} (capturing : s.capture.isSome = true) (st : Statement)
    {b : Scope} (plain : b ≠ .procedure) : (s.place st).buffer b = s.buffer b := by
  obtain ⟨-, texts, adds, -⟩ := Beside.place (s := s) rfl st
  obtain ⟨new, eq, allowed⟩ := adds.lines b plain
  rw [Allows, if_pos capturing] at allowed
  rw [eq, allowed, List.append_nil]

theorem Allows.sublist {s : Sketch} {texts : List String} {new : List SketchLine}
    (allowed : s.Allows texts new) : (SketchLine.codes new).Sublist texts := by
  unfold Allows at allowed
  split at allowed
  · rw [allowed]
    exact List.nil_sublist texts
  · exact allowed

end Sketch

/-- In the branch of a single-line `If`, the code that a statement writes elsewhere is in the line
of the `If` instead. -/
theorem branch_keeps_code_elsewhere (s : Sketch) (line : Nat) (c : Expr) (st : Statement)
    (elsewhere : st.goesElsewhere = true) :
    let alone := s.place st
    let within := s.place (.inlineIf line c st)
    let behind := s.behindBranches (.inlineIf line c st)
    ∃ texts : List String,
      let code := " ".intercalate texts
      within = behind.emit s!"if ({s.condition c}) \x7b {code} \x7d" ∧
      behind.outline = alone.outline ∧
      ((∀ b, b ≠ .procedure → behind.buffer b = s.buffer b) ∧
        ∀ p ∈ behind.procedures, p ∈ s.procedures ∨ p.code = []) ∧
      ((∀ b, b ≠ .procedure → ∃ new, alone.buffer b = s.buffer b ++ new ∧
          (SketchLine.codes new).Sublist texts) ∧
        ∀ p ∈ alone.procedures, p ∈ s.procedures ∨ (SketchLine.codes p.code).Sublist texts) ∧
      (∀ b, b ≠ .procedure → s.strays within b = []) ∧
      ((∀ b, b ≠ .procedure → s.strays within b = s.strays alone b) ↔
        s.capture.isSome = true ∨ s.knows st = true) := by
  intro alone within behind
  let inner : Sketch := { s with capture := some [] }
  obtain ⟨same, texts, ⟨adds, finishes⟩, captured, unwritten⟩ :=
    Sketch.apart_place (s := s) (c := inner) rfl elsewhere
  let code := " ".intercalate texts
  have collected : (s.captured fun s => s.place st).1 = code := by
    unfold Sketch.captured
    dsimp only
    rw [show (inner.place st).capture = some texts from captured.capture]
    rfl
  have own : within = behind.emit s!"if ({s.condition c}) \x7b {code} \x7d" := by
    rw [← collected]
    rfl
  have kept (b : Scope) (plain : b ≠ .procedure) : behind.buffer b = s.buffer b := by
    have inside := Sketch.buffer_place_captured (s := inner) rfl st plain
    cases b with
    | procedure => exact absurd rfl plain
    | _ => exact inside
  have quiet (b : Scope) (plain : b ≠ .procedure) : s.strays within b = [] := by
    rw [own]
    exact Sketch.strays_inPlace (kept b plain) _ _ _
  refine ⟨texts, own, same.symm, ⟨kept, unwritten⟩,
    ⟨fun b plain => ?_, fun p here => ?_⟩, quiet, ?_⟩
  · obtain ⟨new, eq, allowed⟩ := adds.lines b plain
    exact ⟨new, eq, allowed.sublist⟩
  · exact (finishes p here).imp_right Sketch.Allows.sublist
  · cases capturing : s.capture with
    | some before =>
      refine iff_of_true (fun b plain => ?_) (.inl rfl)
      have still := Sketch.buffer_place_captured (s := s) (by simp [capturing]) st plain
      rw [quiet b plain, Sketch.strays_self still]
    | none =>
      simp only [Option.isSome_none, Bool.false_eq_true, false_or]
      rw [← Sketch.strays_place capturing elsewhere]
      refine forall₂_congr fun b plain => ?_
      rw [quiet b plain]
      exact eq_comm

theorem every_written_in_braces :
    let s : Sketch := { Sketch.empty Options.standard with scope := .loop }
    let st : Statement := .every 2 ⟨"5"⟩ [.plain 3 (.assign "x" ⟨"1"⟩)]
    s.inlineText (.inlineIf 2 ⟨"c"⟩ st) = "if (c) \x7b unsigned long _every_last_1 = 0; " ++
        "void _every_task_1() \x7b x = 1; \x7d if (millis() - _every_last_1 >= 5) \x7b " ++
        "_every_last_1 = millis(); _every_task_1(); \x7d \x7d" ∧
      (∀ b, b ≠ .procedure → s.strays (s.place (.inlineIf 2 ⟨"c"⟩ st)) b = []) ∧
      ¬∀ b, b ≠ .procedure →
        s.strays (s.place (.inlineIf 2 ⟨"c"⟩ st)) b = s.strays (s.place st) b := by
  intro s st
  obtain ⟨texts, -, -, -, -, quiet, same_iff⟩ := branch_keeps_code_elsewhere s 2 ⟨"c"⟩ st rfl
  refine ⟨by decide +kernel, quiet, fun same => ?_⟩
  rcases same_iff.1 same with capturing | known
  · cases capturing
  · cases known

end BasicSketch
