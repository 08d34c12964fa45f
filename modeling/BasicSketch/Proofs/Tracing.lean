import BasicSketch.Proofs.CleanProgram
import BasicSketch.Proofs.Performing

set_option autoImplicit false

/-! Where the lines of a sketch come from. -/

namespace BasicSketch

open Text

namespace Statement

mutual

def inside : Statement → List Statement
  | .every _ _ body => listing body
  | _ => []

/-- The statements that are written one after the other. -/
def listing : List Statement → List Statement
  | [] => []
  | first :: rest => first :: (first.inside ++ listing rest)

end

end Statement

def Marks (known : Statement → Prop) (author : Option Statement) (source : Nat) : Prop :=
  source ≤ maxLong ∧ ∀ st ∈ author, known st ∧ st.line = source

namespace SketchLine

def Fits (known : Statement → Prop) (last : Option Nat) : SketchLine → Prop
  | .marker origin _ source => Marks known origin.author source
  | .code origin _ text =>
    IsCode text ∧ (∀ st ∈ origin.author, known st ∧ last = some st.line) ∧
      (origin.author = none → text = "\x7d")

def mark (last : Option Nat) : SketchLine → Option Nat
  | .marker _ _ source => some source
  | .code .. => last

def lastMark (last : Option Nat) (ls : List SketchLine) : Option Nat := ls.foldl mark last

/-- Each line stands below a marker of its own author; `last` is the number of the last marker
before the first line. -/
def Traced (known : Statement → Prop) : Option Nat → List SketchLine → Prop
  | _, [] => True
  | last, line :: rest => line.Fits known last ∧ Traced known (line.mark last) rest

theorem lastMark_append (last : Option Nat) (ls more : List SketchLine) :
    lastMark last (ls ++ more) = lastMark (lastMark last ls) more :=
  List.foldl_append

theorem traced_append {known : Statement → Prop} {last : Option Nat} {ls more : List SketchLine} :
    Traced known last (ls ++ more) ↔
      Traced known last ls ∧ Traced known (lastMark last ls) more := by
  induction ls generalizing last with
  | nil => simp [Traced, lastMark]
  | cons l rest ih => simp [Traced, lastMark, ih, and_assoc]

def Heads (known : Statement → Prop) : SketchLine → Prop
  | .marker origin _ source => Marks known origin.author source
  | .code _ _ text => IsCode text

end SketchLine

open SketchLine

structure Procedure.Headed (known : Statement → Prop) (p : Procedure) : Prop where
  signature : IsCode p.signature
  header : ∀ l ∈ p.header, l.Heads known

namespace Sketch

structure Tracked (known : Statement → Prop) (s : Sketch) : Prop where
  buffers : ∀ b, Traced known none (s.buffer b)
  opened : ∀ p ∈ s.open?, p.Headed known
  procedures : ∀ p ∈ s.procedures,
    p.Headed known ∧ (∀ n ∈ p.hoisted, Flat n) ∧ Traced known none p.body
  signatures : ∀ t ∈ s.signatures, IsCode t
  notes : s.FlatNotes
  captured : ∀ texts ∈ s.capture, ∀ t ∈ texts, Flat t

def Signed (known : Statement → Prop) (s : Sketch) : Prop :=
  s.capture = none → Marks known s.author s.line

def Linked (s : Sketch) (scope : Scope) : Prop :=
  scope ∈ s.marked → lastMark none (s.buffer (s.landing scope)) = some s.line

def kept (s : Sketch) :=
  (s.globals, s.setup, s.loop, s.open?, s.procedures, s.signatures, s.symbols, s.includes,
    s.capture)

variable {known : Statement → Prop} {s s' : Sketch}

theorem Tracked.of_kept (tracked : s.Tracked known) (same : s'.kept = s.kept) :
    s'.Tracked known := by
  simp only [kept, Prod.mk.injEq] at same
  obtain ⟨globals, setup, loop, opened, procedures, signatures, symbols, includes, capture⟩ := same
  refine ⟨fun b => ?_, opened ▸ tracked.opened, procedures ▸ tracked.procedures,
    signatures ▸ tracked.signatures, ⟨symbols ▸ tracked.notes.symbols,
      includes ▸ tracked.notes.includes, opened ▸ tracked.notes.hoisted⟩,
    capture ▸ tracked.captured⟩
  have traced := tracked.buffers b
  cases b <;> simpa only [buffer, globals, setup, loop, opened] using traced

section Push

variable {known : Statement → Prop} {s : Sketch} {scope : Scope} {text : String}

theorem mem_marked_push {other : Scope} {inPlace : Bool} {depth : Nat}
    (mem : other ∈ (s.push inPlace scope depth text).marked) :
    other ∈ s.marked ∨ other = scope := by
  cases capturing : s.capture with
  | some texts =>
    rw [push_marked_captured _ _ _ _ _ (by simp [capturing])] at mem
    exact Or.inl mem
  | none =>
    rw [push_marked _ _ _ _ _ capturing] at mem
    split at mem
    · exact Or.inl mem
    · simpa using mem

theorem Linked.push {other : Scope} (linked : s.Linked other) (inPlace : Bool) (scope : Scope)
    (depth : Nat) (text : String) : (s.push inPlace scope depth text).Linked other := by
  intro mem
  rw [push_landing, (push_rest s _ _ _ _).2.1]
  cases capturing : s.capture with
  | some texts =>
    have active : s.capture.isSome = true := by simp [capturing]
    rw [push_marked_captured _ _ _ _ _ active] at mem
    rw [buffer_push_captured _ _ _ _ _ active]
    exact linked mem
  | none =>
    rw [push_marked _ _ _ _ _ capturing] at mem
    rw [buffer_push _ _ _ _ _ capturing, lastMark_append]
    by_cases marked : s.marked.contains scope = true
    · -- The marker is there already, so only code is added.
      rw [if_pos marked] at mem
      rw [linked mem, pushed, if_pos marked]
      split <;> rfl
    · rw [if_neg marked] at mem
      rw [pushed, if_neg marked]
      by_cases here : s.landing other = s.landing scope
      · rw [if_pos here]
        rfl
      · have before : other ∈ s.marked := by
          rcases List.mem_append.1 mem with before | new
          · exact before
          · exact absurd (congrArg s.landing (List.mem_singleton.1 new)) here
        rw [if_neg here, linked before]
        rfl

theorem traced_pushed {last : Option Nat} (marks : Marks known s.author s.line)
    (linked : s.author.isSome = true → scope ∈ s.marked → last = some s.line) (code : IsCode text)
    (closing : s.author = none → text = "\x7d") (inPlace : Bool) (depth : Nat) :
    Traced known last (s.pushed inPlace scope depth text) := by
  unfold pushed
  split
  · rename_i marked
    refine ⟨⟨code, fun st author => ?_, closing⟩, trivial⟩
    obtain ⟨isKnown, line⟩ := marks.2 st author
    have authored : s.author.isSome = true := Option.isSome_of_mem author
    exact ⟨isKnown, by rw [linked authored (by simpa using marked), line]⟩
  · refine ⟨marks, ⟨code, fun st author => ?_, closing⟩, trivial⟩
    obtain ⟨isKnown, line⟩ := marks.2 st author
    exact ⟨isKnown, by rw [line]; rfl⟩

theorem headed_push (opened : ∀ p ∈ s.open?, p.Headed known) (inPlace : Bool) (depth : Nat) :
    ∀ p ∈ (s.push inPlace scope depth text).open?, p.Headed known := by
  intro p mem
  have same := push_heading s inPlace scope depth text
  rw [show (s.push inPlace scope depth text).open? = some p from mem] at same
  obtain ⟨q, before, eq⟩ := Option.map_eq_some_iff.1 same.symm
  obtain ⟨signature, header, -⟩ : q.signature = p.signature ∧ q.header = p.header ∧
      q.hoisted = p.hoisted := by simpa [Procedure.heading] using eq
  exact ⟨signature ▸ (opened q before).signature, header ▸ (opened q before).header⟩

theorem captured_push (captured : ∀ texts ∈ s.capture, ∀ t ∈ texts, Flat t) (flat : Flat text)
    (inPlace : Bool) (depth : Nat) :
    ∀ texts ∈ (s.push inPlace scope depth text).capture, ∀ t ∈ texts, Flat t := by
  intro all same t mem
  cases capturing : s.capture with
  | some texts =>
    rw [push_captured _ _ _ _ _ capturing] at same
    obtain rfl := Option.some.inj same
    rcases List.mem_append.1 mem with before | here
    · exact captured texts capturing t before
    · rw [List.mem_singleton.1 here]
      exact flat_trim flat
  | none =>
    have none_yet := push_isSome_capture s inPlace scope depth text
    rw [capturing, show (s.push inPlace scope depth text).capture = some all from same] at none_yet
    simp at none_yet

theorem Tracked.push (tracked : s.Tracked known) (signed : s.Signed known)
    (linked : s.author.isSome = true → s.Linked scope) (code : IsCode text)
    (closing : s.author = none → text = "\x7d")
    (inPlace : Bool) (depth : Nat) : (s.push inPlace scope depth text).Tracked known where
  buffers b := by
    cases capturing : s.capture with
    | some texts =>
      rw [buffer_push_captured _ _ _ _ _ (by simp [capturing])]
      exact tracked.buffers b
    | none =>
      rw [buffer_push _ _ _ _ _ capturing, traced_append]
      refine ⟨tracked.buffers b, ?_⟩
      split
      · rename_i here
        exact traced_pushed (signed capturing) (here ▸ linked) code closing inPlace depth
      · trivial
  opened := headed_push tracked.opened inPlace depth
  procedures := by simpa using tracked.procedures
  signatures := by simpa using tracked.signatures
  notes := tracked.notes.push ..
  captured := captured_push tracked.captured code.flat inPlace depth

end Push

/-! What every action does that neither opens nor closes a procedure. -/

inductive Works : Sketch → Sketch → Prop
  | push (s : Sketch) (inPlace : Bool) (scope : Scope) (depth : Nat) {text : String}
    (code : IsCode text) : Works s (s.push inPlace scope depth text)
  | note {s s' : Sketch} (noted : Noted s s') (flat : s.FlatNotes → s'.FlatNotes) : Works s s'
  | blocks (s : Sketch) (blocks : List Block) (events : List Event) :
    Works s { s with blocks, events }
  | trans {s s' s'' : Sketch} (first : Works s s') (second : Works s' s'') : Works s s''

structure SameTask (s s' : Sketch) : Prop where
  author : s'.author = s.author
  line : s'.line = s.line
  capture : s'.capture.isSome = s.capture.isSome
  marked : s.capture.isSome = true → s'.marked = s.marked

theorem SameTask.capture_eq_none (same : SameTask s s') : s'.capture = none ↔ s.capture = none := by
  have both := same.capture
  cases before : s.capture <;> cases after : s'.capture <;> simp [before, after] at both ⊢

theorem SameTask.trans {s s' s'' : Sketch} (first : SameTask s s') (second : SameTask s' s'') :
    SameTask s s'' where
  author := second.author.trans first.author
  line := second.line.trans first.line
  capture := second.capture.trans first.capture
  marked active := (second.marked (first.capture.trans active)).trans (first.marked active)

theorem SameTask.push (s : Sketch) (inPlace : Bool) (scope : Scope) (depth : Nat)
    (text : String) : SameTask s (s.push inPlace scope depth text) where
  author := by simp
  line := by simp
  capture := by simp
  marked active := push_marked_captured _ _ _ _ _ active

theorem Signed.of_eq (signed : s.Signed known) (author : s'.author = s.author)
    (line : s'.line = s.line) (capture : s'.capture.isSome = s.capture.isSome) :
    s'.Signed known := by
  intro writing
  have before : s.capture = none := by simpa [writing] using capture
  rw [author, line]
  exact signed before

theorem SameTask.signed (same : SameTask s s') (signed : s.Signed known) : s'.Signed known :=
  signed.of_eq same.author same.line same.capture

structure Ready (known : Statement → Prop) (s : Sketch) : Prop where
  tracked : s.Tracked known
  signed : s.Signed known
  authored : s.author.isSome = true
  linked : ∀ scope, s.Linked scope

section Ready

variable {known : Statement → Prop} {s s' : Sketch}

theorem Ready.push (ready : s.Ready known) {text : String} (code : IsCode text) (inPlace : Bool)
    (scope : Scope) (depth : Nat) : (s.push inPlace scope depth text).Ready known where
  tracked := ready.tracked.push ready.signed (fun _ => ready.linked scope) code
    (fun nobody => absurd ready.authored (by simp [nobody])) inPlace depth
  signed := (SameTask.push s inPlace scope depth text).signed ready.signed
  authored := by simpa using ready.authored
  linked other := (ready.linked other).push inPlace scope depth text

theorem Noted.landing (noted : Noted s s') (scope : Scope) :
    s'.landing scope = s.landing scope := by
  have same := congrArg Option.isSome noted.heading
  simp only [Option.isSome_map] at same
  cases scope <;> simp [Sketch.landing, same]

theorem Noted.sameTask (noted : Noted s s') : SameTask s s' :=
  ⟨noted.author, noted.line, by rw [noted.capture], fun _ => noted.marked⟩

theorem Tracked.note (tracked : s.Tracked known) (noted : Noted s s')
    (flat : s.FlatNotes → s'.FlatNotes) : s'.Tracked known where
  buffers b := noted.buffer b ▸ tracked.buffers b
  opened p mem := by
    have same := noted.heading
    rw [show s'.open? = some p from mem] at same
    obtain ⟨q, before, eq⟩ := Option.map_eq_some_iff.1 same.symm
    obtain ⟨signature, header⟩ : q.signature = p.signature ∧ q.header = p.header := by
      simpa using eq
    exact ⟨signature ▸ (tracked.opened q before).signature,
      header ▸ (tracked.opened q before).header⟩
  procedures := noted.procedures ▸ tracked.procedures
  signatures := noted.signatures ▸ tracked.signatures
  notes := flat tracked.notes
  captured := noted.capture ▸ tracked.captured

theorem Ready.note (ready : s.Ready known) (noted : Noted s s')
    (flat : s.FlatNotes → s'.FlatNotes) : s'.Ready known where
  tracked := ready.tracked.note noted flat
  signed := noted.sameTask.signed ready.signed
  authored := noted.author ▸ ready.authored
  linked scope mem := by
    rw [noted.landing, noted.buffer, noted.line]
    exact ready.linked scope (noted.marked ▸ mem)

theorem Ready.works (works : Works s s') (ready : s.Ready known) :
    s'.Ready known ∧ SameTask s s' := by
  induction works with
  | push s inPlace scope depth code => exact ⟨ready.push code .., SameTask.push ..⟩
  | note noted flat => exact ⟨ready.note noted flat, noted.sameTask⟩
  | blocks s blocks events =>
    refine ⟨⟨ready.tracked.of_kept rfl, ready.signed, ready.authored, fun scope => ?_⟩,
      rfl, rfl, rfl, fun _ => rfl⟩
    have linked := ready.linked scope
    cases scope <;> exact linked
  | trans _ _ first second =>
    obtain ⟨between, same⟩ := first ready
    obtain ⟨after, same'⟩ := second between
    exact ⟨after, same.trans same'⟩

end Ready

namespace Works

variable {s s' : Sketch}

theorem flatNotes (works : Works s s') (flat : s.FlatNotes) : s'.FlatNotes := by
  induction works with
  | push s => exact flat.push ..
  | note _ keeps => exact keeps flat
  | blocks => exact ⟨flat.symbols, flat.includes, flat.hoisted⟩
  | trans _ _ first second => exact second (first flat)

variable {text : String}

variable (s)

theorem emit (code : IsCode text) : Works s (s.emit text) :=
  push s true s.scope s.depth code

theorem refl : Works s s := blocks s s.blocks s.events

variable {s}

theorem of_does {a : Action} {keeps : Bool} (does : Does a keeps s s')
    (clean : a.Clean) (notes : s.FlatNotes) : Works s s' := by
  -- whatever is written later is written with notes that are still flat
  have texts {σ : Symbols} {s : Sketch} (notes : s.FlatNotes)
      (known : σ.bounds ⊆ s.symbols.bounds) : σ.Flat :=
    fun entry mem => notes.symbols entry (known mem)
  induction does with
  | line s known line => exact push s _ _ _ (line.isCode clean (texts notes known))
  | elsewhere s known line => exact push s _ _ _ (line.isCode clean (texts notes known))
  | note s learned included quiet =>
    refine .note (Noted.of_names s quiet) fun _ => ⟨fun entry mem b bound => ?_, fun t mem => ?_,
      notes.hoisted⟩
    · rcases learned entry mem with before | new
      · exact notes.symbols entry before b bound
      · exact (new b bound).flat clean notes.symbols
    · rcases included t mem with before | rfl
      · exact notes.includes t before
      · exact clean
  | hoist s opened assigns =>
    refine .note (Noted.hoist s opened) fun _ => ⟨notes.symbols, notes.includes, ?_⟩
    intro p same name mem
    obtain rfl := Option.some.inj same
    rcases List.mem_append.1 mem with before | here
    · exact notes.hoisted _ opened name before
    · obtain ⟨v, rfl⟩ := assigns
      rw [List.mem_singleton.1 here]
      exact clean.1.1
  | turn s => exact blocks s _ _
  | trans _ _ first second =>
    have begun := first notes
    exact begun.trans (second (begun.flatNotes notes))

theorem perform (notes : s.FlatNotes) {a : Action} (clean : a.Clean)
    (begins : ∀ h, a ≠ .procedureStart h) (ends : ∀ kind, a ≠ .procedureEnd kind) :
    Works s (s.perform a) :=
  of_does (.perform s a begins ends) clean notes

end Works

end Sketch

end BasicSketch
