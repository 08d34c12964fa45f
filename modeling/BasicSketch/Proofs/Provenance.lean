import BasicSketch.Event
import BasicSketch.LineForm
import BasicSketch.Proofs.Relexing

set_option autoImplicit false

/-!
Where the parts of a line's action come from: its names are words of the line, its expressions are
pieces of the line with balanced brackets, and what a recogniser checks on the way holds.
-/

namespace BasicSketch

open Text

def WordOf (line name : String) : Prop := ∃ t ∈ Token.ofLine line, t.isWord = true ∧ name = t.text

def Expr.From (line : String) (e : Expr) : Prop :=
  ∃ ts, ts <:+: Token.ofLine line ∧ Token.Balanced ts ∧ e = .ofText (Token.slice ts)

def TypeRef.From (line : String) (type : TypeRef) : Prop :=
  ∃ first parts, (∀ t ∈ first :: parts, t ∈ Token.ofLine line ∧ t.isWord = true) ∧
    type.name = parts.foldl (fun text t => text ++ "::" ++ t.text) first.text

structure Declaration.From (line : String) (d : Declaration) : Prop where
  name : WordOf line d.name
  dimensions : ∀ e ∈ d.dimensions, e.From line
  type : ∀ t ∈ d.type, t.From line
  initial : ∀ e ∈ d.initial, e.From line

structure ArrayLiteral.From (line : String) (a : ArrayLiteral) : Prop where
  name : WordOf line a.name
  type : a.type.From line
  elements : ∀ e ∈ a.elements, e.From line

structure Parameter.From (line : String) (p : Parameter) : Prop where
  name : WordOf line p.name
  type : ∀ t ∈ p.type, t.From line
  initial : ∀ e ∈ p.initial, e.From line

structure ProcedureHeader.From (line : String) (h : ProcedureHeader) : Prop where
  name : WordOf line h.name
  parameters : ∀ p ∈ h.parameters, p.From line
  result : ∀ t ∈ h.result, t.From line

def LoopTest.From (line : String) : LoopTest → Prop
  | .always => True
  | .whileTrue c | .untilTrue c => c.From line

def CaseValue.From (line : String) : CaseValue → Prop
  | .value v => v.From line
  | .range low high => low.From line ∧ high.From line
  | .comparison operator v => (∃ t ∈ Token.ofLine line, operator = t.text) ∧ v.From line

def Token.IsPath (t : Token) : Prop := t.isWord = true ∨ t.kind.isMember = true

def Action.From (line : String) : Action → Prop
  | .label name | .typeStart name | .enumStart name => WordOf line name
  | .optionBase base => base ≤ 1
  | .includeFile target => ∃ ts, ts ⊆ Token.ofLine line ∧ target = trim (Token.slice ts)
  | .procedureStart header => header.From line
  | .malformedHeader source =>
    source = line ∧ ∃ first rest, Token.ofLine line = first :: rest ∧ first.isWord = true
  | .const name value => WordOf line name ∧ value.From line
  | .arrayLiteral literal => literal.From line
  | .dim declarations | .static declarations =>
    declarations ≠ [] ∧ ∀ d ∈ declarations, d.From line
  | .typeField field => field.From line
  | .enumMember name value => WordOf line name ∧ ∀ e ∈ value, e.From line
  | .goto target => ∃ t ∈ Token.ofLine line, target = t.text
  | .unsupported source => source = line ∨ source = "End"
  | .untranslated source => source = line
  | .messageBox e | .withObject e | .ifBlock e | .elseIf e | .whileLoop e | .select e
  | .returnValue e => e.From line
  | .forLoop counter start stop step =>
    WordOf line counter ∧ start.From line ∧ stop.From line ∧ ∀ e ∈ step, e.From line
  | .forEach counter collection => WordOf line counter ∧ collection.From line
  | .doLoop test | .loopEnd test => test.From line
  | .caseOf values => values ≠ [] ∧ ∀ v ∈ values, v.From line
  | .board function arguments =>
    arguments.length = function.arity ∧ ∀ e ∈ arguments, e.From line
  | .draw command arguments =>
    command.arity.admits arguments.length = true ∧ ∀ e ∈ arguments, e.From line
  | .sprite command object arguments =>
    (∀ c ∈ object.toList, isNameChar c = true) ∧
      command.arity.admits arguments.length = true ∧ ∀ e ∈ arguments, e.From line
  | .randomize seed => ∀ e ∈ seed, e.From line
  | .call name arguments =>
    (∃ first members, first.isWord = true ∧ (∀ t ∈ members, t.IsPath) ∧
      first :: members ⊆ Token.ofLine line ∧ name = Token.slice (first :: members)) ∧
      ∀ e ∈ arguments, e.From line
  | .assign target value =>
    (∃ first rest, first.isWord = true ∧ first :: rest ⊆ Token.ofLine line ∧
      target = Token.slice (first :: rest)) ∧ value.From line
  | .optionExplicit | .procedureEnd _ | .typeEnd | .enumEnd | .exitLoop | .exitProcedure
  | .continueLoop | .inputBox | .endWith | .clock _ | .elseBlock | .endIf | .next | .wend
  | .caseElse | .endSelect | .doEvents => True

/-- An assignment, or a call of a procedure or of a command that is known by its name. -/
def Action.isDeed : Action → Bool
  | .assign .. | .call .. | .board .. | .draw .. | .sprite .. | .messageBox _ => true
  | _ => false

def Action.Deed (line : String) (a : Action) : Prop := a.From line ∧ a.isDeed = true

def Action.delays : Action → List Expr
  | .board .delay [e] => [e]
  | _ => []

def Action.Errand (line : String) (a : Action) : Prop := a.Deed line ∧ a.delays = []

def Action.isEntry : Action → Bool
  | .typeField _ | .enumMember .. => true
  | _ => false

/-- The action is an entry of a body of this kind, or a line in it that is not translated. -/
def BodyKind.owns : BodyKind → Action → Bool
  | .record, .typeField _ | .enumeration, .enumMember .. | _, .untranslated _ => true
  | _, _ => false

def Action.Within (body : BodyKind) (line : String) (a : Action) : Prop :=
  a.From line ∧ body.owns a = true

def Action.isHeader : Action → Bool
  | .procedureStart _ => true
  | _ => false

def Action.Aside (line : String) (a : Action) : Prop :=
  a.From line ∧ (a.isDeed || a.isEntry || a.isHeader) = false

namespace Token

variable {line : String}

variable {ts : List Token} {depth : Nat} {es : List Expr}

theorem depth?_of_unbalancedAt? {opened : List Nat} (none_found : unbalancedAt? opened ts = none) :
    depth? opened.length (ts.map nesting) = some 0 := by
  induction ts generalizing opened with
  | nil =>
    rw [unbalancedAt?, List.getLast?_eq_none_iff] at none_found
    simp [none_found, depth?]
  | cons t ts ih =>
    unfold unbalancedAt? at none_found
    rw [List.map_cons]
    split at none_found
    · rename_i opens
      rw [opens, depth?]
      exact ih none_found
    · simp at none_found
    · rename_i closes
      rw [closes, List.length_cons, depth?]
      exact ih none_found
    · rename_i flat
      rw [flat, depth?]
      exact ih none_found

theorem balanced_of_check (checked : checkBalanced ts = .ok ()) : Balanced ts := by
  unfold checkBalanced at checked
  split at checked
  · simp at checked
  · rename_i none_found
    exact depth?_of_unbalancedAt? none_found

theorem depth?_cons {final : Nat} {t : Token} {ns : List Nesting} :
    depth? depth (t.nesting :: ns) = some final ↔
      (t.nesting = .closes → depth ≠ 0) ∧ depth? (depthAfter depth t) ns = some final := by
  cases same : t.nesting <;> cases depth <;> simp [depth?, depthAfter, same]

theorem splitCommas_pieces (endColumn : Nat) (balanced : depth? depth (ts.map nesting) = some 0) :
    ∃ head more, splitCommas endColumn depth ts = head :: more ∧
      depth? depth (head.1.map nesting) = some 0 ∧ head.1 <+: ts ∧
      ∀ piece ∈ more, Balanced piece.1 ∧ piece.1 <:+: ts := by
  induction ts generalizing depth with
  | nil => exact ⟨_, [], rfl, balanced, List.prefix_refl _, by simp⟩
  | cons t ts ih =>
    rw [List.map_cons, depth?_cons] at balanced
    rw [splitCommas]
    split
    · rename_i comma
      obtain ⟨top, comma⟩ := Bool.and_eq_true_iff.1 comma
      obtain rfl := eq_of_beq top
      have flat : t.nesting = .flat := by simp [nesting, eq_of_beq comma]
      have rest := balanced.2
      simp only [depthAfter, flat] at rest
      obtain ⟨head, more, eq, here, first, later⟩ := ih rest
      refine ⟨_, _, rfl, rfl, List.nil_prefix, ?_⟩
      rw [eq]
      intro piece mem
      rcases List.mem_cons.1 mem with rfl | mem
      · exact ⟨here, first.isInfix.trans (List.suffix_cons t ts).isInfix⟩
      · exact ⟨(later piece mem).1, (later piece mem).2.trans (List.suffix_cons t ts).isInfix⟩
    · obtain ⟨head, more, eq, here, first, later⟩ := ih balanced.2
      rw [eq]
      refine ⟨_, _, rfl, ?_, List.cons_prefix_cons.2 ⟨rfl, first⟩, fun piece mem => ?_⟩
      · rw [List.map_cons, depth?_cons]
        exact ⟨balanced.1, here⟩
      · exact ⟨(later piece mem).1, (later piece mem).2.trans (List.suffix_cons t ts).isInfix⟩

theorem from_argument {piece : List Token × Nat} {e : Expr} (inside : piece.1 <:+: ofLine line)
    (balanced : Balanced piece.1) (read : argument piece = .ok e) : e.From line := by
  unfold argument at read
  split at read
  · simp at read
  · exact ⟨_, inside, balanced, (Except.ok.inj read).symm⟩

theorem from_mapM_argument {pieces : List (List Token × Nat)}
    (good : ∀ p ∈ pieces, p.1 <:+: ofLine line ∧ Balanced p.1)
    (read : pieces.mapM argument = .ok es) : ∀ e ∈ es, e.From line := by
  induction pieces generalizing es with
  | nil =>
    obtain rfl : [] = es := Except.ok.inj read
    simp
  | cons p rest ih =>
    rw [List.mapM_cons] at read
    cases here : argument p with
    | error e => simp [here, bind, Except.bind] at read
    | ok e =>
      cases there : rest.mapM argument with
      | error e => simp [here, there, bind, Except.bind] at read
      | ok more =>
        have eq : e :: more = es := by
          simpa [here, there, bind, Except.bind, pure, Except.pure] using read
        subst eq
        have first := good p List.mem_cons_self
        intro e' mem
        rcases List.mem_cons.1 mem with rfl | later
        · exact from_argument first.1 first.2 here
        · exact ih (fun q inside => good q (List.mem_cons_of_mem _ inside)) there e' later

theorem from_arguments {endColumn : Nat} (inside : ts <:+: ofLine line)
    (read : arguments endColumn ts = .ok es) : ∀ e ∈ es, e.From line := by
  unfold arguments at read
  split at read
  · obtain rfl := Except.ok.inj read
    simp
  · cases checked : checkBalanced ts with
    | error e => simp [checked, bind, Except.bind] at read
    | ok _ =>
      obtain ⟨head, more, eq, here, first, later⟩ :=
        splitCommas_pieces endColumn (balanced_of_check checked)
      refine from_mapM_argument ?_ (by simpa [checked, bind, Except.bind] using read)
      rw [eq]
      intro p mem
      rcases List.mem_cons.1 mem with rfl | mem
      · exact ⟨first.isInfix.trans inside, here⟩
      · exact ⟨(later p mem).2.trans inside, (later p mem).1⟩

theorem infix_of_closeGroup? {inside rest : List Token} {close : Token}
    (found : closeGroup? depth ts = some (inside, close, rest)) : inside <:+: ts := by
  rw [← closeGroup?_append found]
  exact List.infix_append' [] inside _

theorem from_callArguments (inside : ts <:+: ofLine line) (read : callArguments ts = .ok es) :
    ∀ e ∈ es, e.From line := by
  unfold callArguments at read
  split at read
  · obtain rfl := Except.ok.inj read
    simp
  · rename_i t more
    have after : more <:+: ofLine line := (List.suffix_cons t more).isInfix.trans inside
    split at read
    · split at read
      · simp at read
      · rename_i found
        exact from_arguments ((infix_of_closeGroup? found).trans after) read
      · exact from_arguments inside read
    · exact from_arguments inside read

end Token

open Token (splitAtTop)

namespace Reader

theorem run_exprUntil (expected : String) (stop : TokenKind → Bool) (ts : List Token) :
    (exprUntil expected stop).run ts =
      if (splitAtTop stop 0 ts).1.isEmpty then .error (errorHere expected ts)
      else
        match Token.checkBalanced (splitAtTop stop 0 ts).1 with
        | .error e => .error e
        | .ok _ =>
          .ok (.ofText (Token.slice (splitAtTop stop 0 ts).1),
            (splitAtTop stop 0 ts).2) := by
  simp only [run, exprUntil]
  by_cases empty : (splitAtTop stop 0 ts).1.isEmpty = true
  · simp only [if_pos empty]
  · simp only [if_neg empty]
    cases Token.checkBalanced (splitAtTop stop 0 ts).1 <;> rfl

variable {α : Type}

theorem run_commaList (item : Reader α) (ts : List Token) :
    (commaList item).run ts =
      match item.run ts with
      | .error e => .error e
      | .ok (a, []) => .ok ([a], [])
      | .ok (a, t :: rest) =>
        if t.kind == .symbol .comma then
          match (commaList item).run rest with
          | .error e => .error e
          | .ok (more, rest') => .ok (a :: more, rest')
        else .ok ([a], t :: rest) := by
  simp only [run]
  rw [commaList]
  cases item ts with
  | error e => rfl
  | ok r =>
    obtain ⟨⟨a, tail⟩, left⟩ := r
    cases tail with
    | nil => rfl
    | cons t rest =>
      by_cases comma : (t.kind == .symbol .comma) = true
      · simp only [comma, if_true]
        cases commaList item rest <;> rfl
      · simp only [comma, Bool.false_eq_true, if_false]

end Reader

end BasicSketch
