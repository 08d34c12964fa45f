import BasicSketch.Proofs.Moments
import BasicSketch.Proofs.ScopeDiscipline

set_option autoImplicit false

/-! What is appended where. -/

namespace BasicSketch

def Statement.isRouted : Statement → Bool
  | .plain _ action => action.isRouted
  | .inlineIf _ _ thenBranch => thenBranch.isRouted
  | .inlineIfElse _ _ thenBranch elseBranch => thenBranch.isRouted && elseBranch.isRouted
  | .every .. => false

def Statement.staysInBody : Statement → Bool
  | .plain _ (.procedureStart _) | .plain _ (.procedureEnd _) | .every .. => false
  | .plain .. => true
  | .inlineIf _ _ thenBranch => thenBranch.staysInBody
  | .inlineIfElse _ _ thenBranch elseBranch => thenBranch.staysInBody && elseBranch.staysInBody

theorem Statement.staysInBody_of_isRouted :
    (st : Statement) → st.isRouted = true → st.staysInBody = true
  | .plain _ a, routed => by
    cases a <;> first | rfl | simp [Statement.isRouted, Action.isRouted] at routed
  | .inlineIf _ _ thenBranch, routed => staysInBody_of_isRouted thenBranch routed
  | .inlineIfElse _ _ thenBranch elseBranch, routed => by
    obtain ⟨first, second⟩ := Bool.and_eq_true_iff.1 routed
    exact Bool.and_eq_true_iff.2
      ⟨staysInBody_of_isRouted thenBranch first, staysInBody_of_isRouted elseBranch second⟩

def Procedure.title (p : Procedure) : String × List SketchLine := (p.signature, p.header)

theorem Procedure.title_of_heading {x y : Option Procedure}
    (same : x.map heading = y.map heading) :
    x.map title = y.map title ∧ x.map hoisted = y.map hoisted := by
  cases x <;> cases y <;> simp_all [heading, title]

namespace Sketch

/-- Lines are appended where the statement stands, and nowhere else. -/
structure Appends (s s' : Sketch) : Prop where
  scope : s'.scope = s.scope
  title : s'.open?.map Procedure.title = s.open?.map Procedure.title
  procedures : s'.procedures = s.procedures
  signatures : s'.signatures = s.signatures
  author : s'.author = s.author
  writing : s.capture = none → s'.capture = none
  collects : ∀ texts, s.capture = some texts → ∃ more, s'.capture = some (texts ++ more)
  lines : ∃ new, (∀ b, s'.buffer b = s.buffer b ++ if b = s.landing s.scope then new else []) ∧
    (s.capture.isSome = true → new = []) ∧ ∀ l ∈ new, l.origin = ⟨s.author, true⟩

namespace Appends

variable {s s' s'' : Sketch}

theorem capture (appends : Appends s s') : s'.capture.isSome = s.capture.isSome := by
  cases capturing : s.capture with
  | none => rw [appends.writing capturing]
  | some texts =>
    obtain ⟨more, eq⟩ := appends.collects texts capturing
    rw [eq]
    rfl

theorem opened (appends : Appends s s') : s'.open?.isSome = s.open?.isSome := by
  simpa only [Option.isSome_map] using congrArg Option.isSome appends.title

theorem landing (appends : Appends s s') : s'.landing s'.scope = s.landing s.scope := by
  rw [appends.scope]
  cases s.scope <;> simp [Sketch.landing, appends.opened]

theorem trans (first : Appends s s') (second : Appends s' s'') : Appends s s'' where
  scope := second.scope.trans first.scope
  title := second.title.trans first.title
  procedures := second.procedures.trans first.procedures
  signatures := second.signatures.trans first.signatures
  author := second.author.trans first.author
  writing absent := second.writing (first.writing absent)
  collects texts capturing := by
    obtain ⟨more, eq⟩ := first.collects texts capturing
    obtain ⟨more', eq'⟩ := second.collects _ eq
    exact ⟨more ++ more', by rw [eq', List.append_assoc]⟩
  lines := by
    obtain ⟨new, eq, captured, own⟩ := first.lines
    obtain ⟨new', eq', captured', own'⟩ := second.lines
    refine ⟨new ++ new', fun b => ?_, fun capturing => ?_, fun l mem => ?_⟩
    · rw [eq', eq, first.landing, List.append_assoc]
      split <;> simp
    · rw [captured capturing, captured' (first.capture.trans capturing), List.append_nil]
    · rcases List.mem_append.1 mem with here | there
      · exact own l here
      · exact first.author ▸ own' l there

theorem of_eq (buffers : ∀ b, s'.buffer b = s.buffer b) (scope : s'.scope = s.scope)
    (title : s'.open?.map Procedure.title = s.open?.map Procedure.title)
    (procedures : s'.procedures = s.procedures) (signatures : s'.signatures = s.signatures)
    (author : s'.author = s.author) (capture : s'.capture = s.capture) : Appends s s' where
  scope := scope
  title := title
  procedures := procedures
  signatures := signatures
  author := author
  writing absent := capture.trans absent
  collects texts capturing := ⟨[], by rw [capture, capturing, List.append_nil]⟩
  lines := ⟨[], fun b => by simp [buffers b], fun _ => rfl, by simp⟩

section Steps

variable (s : Sketch)

theorem note (symbols : Symbols) (includes sprites : List String) (blocks : List Block)
    (globalNames localNames : List String) (events : List Event) :
    Appends s { s with symbols, includes, sprites, blocks, globalNames, localNames, events } :=
  of_eq (fun b => by cases b <;> rfl) rfl rfl rfl rfl rfl rfl

theorem refl : Appends s s :=
  note s s.symbols s.includes s.sprites s.blocks s.globalNames s.localNames s.events

theorem declare (name : String) : Appends s (s.declare name) := by
  obtain ⟨globalNames, localNames, eq⟩ := declare_frame s name
  rw [eq]
  exact note s s.symbols s.includes s.sprites s.blocks globalNames localNames s.events

theorem inPlace (depth : Nat) (text : String) : Appends s (s.push true s.scope depth text) := by
  have title := (Procedure.title_of_heading (push_heading s true s.scope depth text)).1
  refine ⟨by simp, title, by simp, by simp, by simp, fun writing => ?_,
    fun texts capturing => ?_, ?_⟩
  · have same := push_isSome_capture s true s.scope depth text
    rw [writing] at same
    exact Option.not_isSome_iff_eq_none.1 (by rw [same]; simp)
  · exact ⟨[Text.trim text], by rw [push_captured s true s.scope depth text capturing]⟩
  · cases capturing : s.capture with
    | some texts =>
      refine ⟨[], fun b => ?_, fun _ => rfl, by simp⟩
      rw [buffer_push_captured _ _ _ _ _ (by simp [capturing])]
      simp
    | none =>
      refine ⟨s.pushed true s.scope depth text, buffer_push _ _ _ _ _ capturing, by simp, ?_⟩
      intro l mem
      have inPlace := Grows.pushed_inPlace s true s.scope depth text l mem
      have author := (origin_pushed l mem).1
      cases origin : l.origin with
      | mk by_ place =>
        rw [SketchLine.inPlace, origin] at inPlace
        rw [origin] at author
        rw [show by_ = s.author from author, show place = true from inPlace]

theorem emit (text : String) : Appends s (s.emit text) := inPlace s s.depth text

theorem of_does {a : Action} {keeps : Bool} {s s' : Sketch} (does : Does a keeps s s')
    (routed : a.isRouted = true) : Appends s s' := by
  induction does with
  | line s => exact inPlace s _ _
  | elsewhere s _ _ unrouted => simp [unrouted] at routed
  | note s => exact note s _ _ _ s.blocks _ _ _
  | hoist s opened =>
    refine of_eq (fun b => by cases b <;> simp [buffer, opened]) rfl ?_ rfl rfl rfl rfl
    simp [opened, Procedure.title]
  | turn s blocks events =>
    exact note s s.symbols s.includes s.sprites blocks s.globalNames s.localNames events
  | trans _ _ first second => exact first.trans second

theorem emitDeclaration (isStatic : Bool) (d : Declaration) :
    Appends s (s.emitDeclaration isStatic d) :=
  of_does (Does.emitDeclaration (a := .dim [d]) s isStatic List.mem_cons_self) rfl

theorem hoist (name : String) : Appends s (s.hoist name) :=
  of_does (Does.hoists s name ⟨""⟩) rfl

theorem perform {a : Action} (routed : a.isRouted = true) : Appends s (s.perform a) := by
  refine of_does (Does.perform s a ?_ ?_) routed
  all_goals
    rintro _ rfl
    cases routed

theorem buffer_captured {write : Sketch → Sketch} (writes : ∀ s, Appends s (write s)) (b : Scope) :
    (s.captured write).2.buffer b = s.buffer b := by
  obtain ⟨new, eq, none_new, -⟩ := (writes { s with capture := some [] }).lines
  have same := eq b
  rw [none_new rfl, ite_self, List.append_nil] at same
  cases b <;> exact same

theorem captured {write : Sketch → Sketch} (writes : ∀ s, Appends s (write s)) :
    Appends s (s.captured write).2 := by
  have inside := writes { s with capture := some [] }
  exact of_eq (buffer_captured s writes) inside.scope inside.title inside.procedures
    inside.signatures inside.author rfl

end Steps

end Appends

theorem place_appends : (st : Statement) → st.isRouted = true → (s : Sketch) →
    Appends s (s.place st)
  | .plain _ _, routed, s => Appends.perform s routed
  | .inlineIf _ _ thenBranch, routed, s =>
    (Appends.captured s (place_appends thenBranch routed)).trans (Appends.emit _ _)
  | .inlineIfElse _ _ thenBranch elseBranch, routed, s => by
    obtain ⟨first, second⟩ : thenBranch.isRouted = true ∧ elseBranch.isRouted = true := by
      simpa [Statement.isRouted] using routed
    exact ((Appends.captured s (place_appends thenBranch first)).trans
      (Appends.captured _ (place_appends elseBranch second))).trans (Appends.emit _ _)

end Sketch

namespace SketchLine

def isRouted (l : SketchLine) : Bool := l.origin.author.any Statement.isRouted

def routed (ls : List SketchLine) : List SketchLine := ls.filter isRouted

theorem routed_append (ls more : List SketchLine) :
    routed (ls ++ more) = routed ls ++ routed more :=
  List.filter_append ..

end SketchLine

open SketchLine

def Home.procedure (n : Nat) : Home := ⟨.procedure, n⟩

theorem Home.eq_procedure {home : Home} (inside : home.scope = .procedure) :
    home = .procedure home.number := by
  rw [Home.procedure, ← inside]

theorem Home.procedure_ne_outside (n : Nat) : Home.procedure n ≠ .outside := by
  simp [Home.outside, Home.procedure]

namespace Moment

def lines (m : Moment) : List SketchLine :=
  match m.deed with
  | .statement st =>
    if st.isRouted then
      ((m.sketch.place st).buffer m.home.scope).drop (m.sketch.buffer m.home.scope).length
    else []
  | _ => []

def isStatement (m : Moment) : Bool :=
  match m.deed with
  | .statement _ => true
  | _ => false

def after (m : Moment) : Sketch :=
  match m.deed with
  | .statement st => if st.staysInBody then m.sketch.place st else m.sketch
  | _ => m.sketch

def stages (m : Moment) : List Sketch := [m.sketch, m.after]

theorem lines_unrouted {m : Moment} (other : ∀ st, m.deed = .statement st → st.isRouted = false) :
    m.lines = [] := by
  unfold lines
  split
  · rename_i st same
    simp [other st same]
  · rfl

end Moment

/-- The code of the statements that stand where `here` says, in the order of the source. -/
def codeOf (here : Home → Bool) (ms : List Moment) : List SketchLine :=
  (ms.filter fun m => here m.home).flatMap Moment.lines

theorem codeOf_append (here : Home → Bool) (ms more : List Moment) :
    codeOf here (ms ++ more) = codeOf here ms ++ codeOf here more := by
  simp [codeOf]

theorem codeOf_cons (here : Home → Bool) (m : Moment) (ms : List Moment) :
    codeOf here (m :: ms) = (if here m.home then m.lines else []) ++ codeOf here ms := by
  cases inside : here m.home <;> simp [codeOf, inside]

theorem codeOf_eq_nil {here : Home → Bool} {ms : List Moment}
    (absent : ∀ m ∈ ms, here m.home = true → m.lines = []) : codeOf here ms = [] := by
  refine List.flatMap_eq_nil_iff.2 fun m mem => ?_
  obtain ⟨inside, here⟩ := List.mem_filter.1 mem
  exact absent m inside here

namespace Procedure

def Continues (q q' : Procedure) : Prop := q'.title = q.title ∧ q.body <+: q'.body

theorem Continues.trans {q q' q'' : Procedure} (first : q.Continues q')
    (second : q'.Continues q'') : q.Continues q'' :=
  ⟨second.1.trans first.1, first.2.trans second.2⟩

def collect (ps : List Procedure) (q : Procedure) : List Procedure :=
  ps.filter (·.signature != q.signature) ++ [q]

/-- Of the procedures with one signature the last. -/
def latest : List Procedure → List Procedure
  | [] => []
  | q :: later => if later.any (·.signature == q.signature) then latest later else q :: latest later

theorem latest_append (qs : List Procedure) (q : Procedure) :
    latest (qs ++ [q]) = collect (latest qs) q := by
  induction qs with
  | nil => rfl
  | cons r rest ih =>
    simp only [List.cons_append, latest, List.any_append, ih]
    cases again : rest.any (·.signature == r.signature) with
    | true => simp
    | false =>
      by_cases same : q.signature = r.signature
      · simp [same, collect]
      · simp [same, Ne.symm same, collect]

theorem mem_of_mem_latest {q : Procedure} {qs : List Procedure} (mem : q ∈ latest qs) : q ∈ qs := by
  induction qs with
  | nil => exact mem
  | cons first later ih =>
    rw [latest] at mem
    split at mem
    · exact List.mem_cons_of_mem _ (ih mem)
    · exact List.mem_cons.2 ((List.mem_cons.1 mem).imp_right ih)

theorem foldl_collect (qs : List Procedure) :
    ∀ ps, qs.foldl collect (latest ps) = latest (ps ++ qs) := by
  induction qs with
  | nil => simp
  | cons q rest ih =>
    intro ps
    rw [List.foldl_cons, ← latest_append, ih, List.append_assoc, List.singleton_append]

end Procedure

namespace Sketch

theorem procedures_addProcedure (s : Sketch) (q : Procedure) :
    (s.addProcedure q).procedures = Procedure.collect s.procedures q := by
  unfold addProcedure Procedure.collect
  dsimp only
  split
  · rfl
  · rename_i fresh
    have others : s.procedures.filter (·.signature != q.signature) = s.procedures := by
      refine List.filter_eq_self.2 fun r mem => ?_
      simp only [List.any_eq_true, not_exists, not_and] at fresh
      simpa using fresh r mem
    rw [others]

theorem continues_of_title {s s' : Sketch}
    (title : s'.open?.map Procedure.title = s.open?.map Procedure.title)
    (grown : s.buffer .procedure <+: s'.buffer .procedure) {q : Procedure}
    (opened : s.open? = some q) : ∃ q', s'.open? = some q' ∧ q.Continues q' := by
  rw [opened] at title
  obtain ⟨q', opened', same⟩ := Option.map_eq_some_iff.1 title
  refine ⟨q', opened', same, ?_⟩
  simpa [buffer, opened, opened'] using grown

/-- Nothing is written for a statement of the body, and the scope stays the same. -/
structure Mute (s s' : Sketch) : Prop where
  scope : s'.scope = s.scope
  author : s'.author = s.author
  capture : s'.capture.isSome = s.capture.isSome
  procedures : s'.procedures = s.procedures
  title : s'.open?.map Procedure.title = s.open?.map Procedure.title
  lines : ∀ b, ∃ new, s'.buffer b = s.buffer b ++ new ∧ routed new = []

def Unsigned (s : Sketch) : Prop :=
  s.capture.isSome = true ∨ s.author.any Statement.isRouted = false

namespace Mute

variable {s s' s'' : Sketch}

theorem opened (mute : Mute s s') : s'.open?.isSome = s.open?.isSome := by
  simpa only [Option.isSome_map] using congrArg Option.isSome mute.title

theorem trans (first : Mute s s') (second : Mute s' s'') : Mute s s'' where
  scope := second.scope.trans first.scope
  author := second.author.trans first.author
  capture := second.capture.trans first.capture
  procedures := second.procedures.trans first.procedures
  title := second.title.trans first.title
  lines b := by
    obtain ⟨new, eq, unrouted⟩ := first.lines b
    obtain ⟨new', eq', unrouted'⟩ := second.lines b
    refine ⟨new ++ new', by rw [eq', eq, List.append_assoc], ?_⟩
    rw [routed_append, unrouted, unrouted', List.append_nil]

theorem unsigned (mute : Mute s s') (unsigned : s.Unsigned) : s'.Unsigned := by
  rwa [Unsigned, mute.capture, mute.author]

theorem of_eq (scope : s'.scope = s.scope) (author : s'.author = s.author)
    (capture : s'.capture.isSome = s.capture.isSome) (procedures : s'.procedures = s.procedures)
    (title : s'.open?.map Procedure.title = s.open?.map Procedure.title)
    (lines : ∀ b, s'.buffer b = s.buffer b) : Mute s s' :=
  ⟨scope, author, capture, procedures, title, fun b => ⟨[], by simp [lines b], rfl⟩⟩

theorem push (unsigned : s.Unsigned) (inPlace : Bool) (scope : Scope) (depth : Nat)
    (text : String) : Mute s (s.push inPlace scope depth text) := by
  have title := (Procedure.title_of_heading (push_heading s inPlace scope depth text)).1
  refine ⟨by simp, by simp, by simp, by simp, title, fun b => ?_⟩
  cases capturing : s.capture with
  | some texts =>
    refine ⟨[], ?_, rfl⟩
    rw [buffer_push_captured _ _ _ _ _ (by simp [capturing]), List.append_nil]
  | none =>
    refine ⟨_, buffer_push _ _ _ _ _ capturing b, ?_⟩
    have other : s.author.any Statement.isRouted = false := by
      simpa [Unsigned, capturing] using unsigned
    split
    · refine List.filter_eq_nil_iff.2 fun l mem => ?_
      rw [isRouted, (origin_pushed l mem).1, other]
      simp
    · rfl

theorem chores (unsigned : s.Unsigned) (chores : Chores s s') : Mute s s' := by
  induction chores with
  | push s inPlace scope depth text _ => exact push unsigned inPlace scope depth text
  | note s => exact of_eq rfl rfl rfl rfl rfl fun b => by cases b <;> rfl
  | trans _ _ first second =>
    have begun := first unsigned
    exact begun.trans (second (begun.unsigned unsigned))

theorem noted (noted : Noted s s') : Mute s s' :=
  of_eq noted.scope noted.author (by rw [noted.capture]) noted.procedures noted.heading noted.buffer

theorem does {a : Action} {keeps : Bool} (unsigned : s.Unsigned) (does : Does a keeps s s') :
    Mute s s' := by
  induction does with
  | line | elsewhere => exact push unsigned ..
  | note s _ _ quiet => exact noted (.of_names s quiet)
  | hoist s opened => exact noted (.hoist s opened)
  | turn => exact of_eq rfl rfl rfl rfl rfl fun b => by cases b <;> rfl
  | trans _ _ first second =>
    have begun := first unsigned
    exact begun.trans (second (begun.unsigned unsigned))

theorem declare (s : Sketch) (name : String) : Mute s (s.declare name) := by
  obtain ⟨_, _, eq⟩ := declare_frame s name
  rw [eq]
  exact of_eq rfl rfl rfl rfl rfl fun b => by cases b <;> rfl

theorem declares {α : Type} (name : α → String) (names : List α) (s : Sketch) :
    Mute s (names.foldl (fun s a => s.declare (name a)) s) := by
  induction names generalizing s with
  | nil => exact of_eq rfl rfl rfl rfl rfl fun _ => rfl
  | cons a rest ih => exact (declare s (name a)).trans (ih (s.declare (name a)))

end Mute

end Sketch

end BasicSketch
