import BasicSketch.Proofs.LetterCase
import BasicSketch.Proofs.ReaderRuns

set_option autoImplicit false

/-! What the phrases of a line find. -/

namespace BasicSketch

open Text

/-! What a line says, all names and expressions in lower case. -/

def Expr.lower (e : Expr) : Expr := ⟨Text.lower e.text⟩

def TypeRef.lower (type : TypeRef) : TypeRef := { type with name := Text.lower type.name }

def Declaration.lower (d : Declaration) : Declaration :=
  { d with
    name := Text.lower d.name
    dimensions := d.dimensions.map .lower
    type := d.type.map .lower
    initial := d.initial.map .lower }

def ArrayLiteral.lower (a : ArrayLiteral) : ArrayLiteral :=
  { a with
    name := Text.lower a.name
    type := a.type.lower
    elements := a.elements.map .lower }

def Parameter.lower (p : Parameter) : Parameter :=
  { p with
    name := Text.lower p.name
    type := p.type.map .lower
    initial := p.initial.map .lower }

def ProcedureHeader.lower (h : ProcedureHeader) : ProcedureHeader :=
  { h with
    name := Text.lower h.name
    parameters := h.parameters.map .lower
    result := h.result.map .lower }

def LoopTest.lower : LoopTest → LoopTest
  | .always => .always
  | .whileTrue c => .whileTrue c.lower
  | .untilTrue c => .untilTrue c.lower

def CaseValue.lower : CaseValue → CaseValue
  | .value v => .value v.lower
  | .range low high => .range low.lower high.lower
  | .comparison operator v => .comparison (Text.lower operator) v.lower

def Action.lower : Action → Action
  | .label name => .label (Text.lower name)
  | .includeFile target => .includeFile (Text.lower target)
  | .procedureStart header => .procedureStart header.lower
  | .malformedHeader source => .malformedHeader (Text.lower source)
  | .const name value => .const (Text.lower name) value.lower
  | .arrayLiteral literal => .arrayLiteral literal.lower
  | .dim declarations => .dim (declarations.map .lower)
  | .static declarations => .static (declarations.map .lower)
  | .typeStart name => .typeStart (Text.lower name)
  | .typeField field => .typeField field.lower
  | .enumStart name => .enumStart (Text.lower name)
  | .enumMember name value => .enumMember (Text.lower name) (value.map .lower)
  | .goto target => .goto (Text.lower target)
  | .messageBox message => .messageBox message.lower
  | .unsupported source => .unsupported (Text.lower source)
  | .withObject object => .withObject object.lower
  | .ifBlock condition => .ifBlock condition.lower
  | .elseIf condition => .elseIf condition.lower
  | .forLoop counter start stop step =>
    .forLoop (Text.lower counter) start.lower stop.lower (step.map .lower)
  | .forEach counter collection => .forEach (Text.lower counter) collection.lower
  | .whileLoop condition => .whileLoop condition.lower
  | .doLoop test => .doLoop test.lower
  | .loopEnd test => .loopEnd test.lower
  | .select subject => .select subject.lower
  | .caseOf values => .caseOf (values.map .lower)
  | .board function arguments => .board function (arguments.map .lower)
  | .draw command arguments => .draw command (arguments.map .lower)
  | .sprite command object arguments =>
    .sprite command (Text.lower object) (arguments.map .lower)
  | .randomize seed => .randomize (seed.map .lower)
  | .call name arguments => .call (Text.lower name) (arguments.map .lower)
  | .assign target value => .assign (Text.lower target) value.lower
  | .returnValue value => .returnValue value.lower
  | .untranslated source => .untranslated (Text.lower source)
  | a => a

abbrev UpTo {α : Type} (lower : α → α) (a a' : α) : Prop := lower a = lower a'

abbrev Twins {α : Type} (P : α → Prop) (lower : α → α) (a a' : α) : Prop := P a ∧ UpTo lower a a'

inductive Both {α : Type} (R : α → α → Prop) : Except LineError α → Except LineError α → Prop where
  | found {a a' : α} (related : R a a') : Both R (.ok a) (.ok a')
  | refused (e e' : LineError) : Both R (.error e) (.error e')

variable {α : Type}

theorem Both.map {β : Type} {R : α → α → Prop} {S : β → β → Prop} {f f' : α → β}
    {r r' : Except LineError α} (both : Both R r r') (maps : ∀ a a', R a a' → S (f a) (f' a')) :
    Both S (r.map f) (r'.map f') := by
  cases both with
  | found related => exact .found (maps _ _ related)
  | refused e e' => exact .refused e e'

theorem Both.imp {R S : α → α → Prop} {r r' : Except LineError α} (both : Both R r r')
    (weaker : ∀ a a', R a a' → S a a') : Both S r r' := by
  cases both with
  | found related => exact .found (weaker _ _ related)
  | refused e e' => exact .refused e e'

theorem Both.of_ok {R : α → α → Prop} {r r' : Except LineError α} {a : α} (both : Both R r r')
    (read : r = .ok a) : ∃ a', r' = .ok a' ∧ R a a' := by
  cases both with
  | found related => exact ⟨_, rfl, Except.ok.inj read ▸ related⟩
  | refused => cases read

theorem Both.elim {R : α → α → Prop} {r r' : Except LineError α} (both : Both R r r') :
    (∃ a a', r = .ok a ∧ r' = .ok a' ∧ R a a') ∨ ∃ e e', r = .error e ∧ r' = .error e' := by
  cases both with
  | @found a a' related => exact Or.inl ⟨a, a', rfl, rfl, related⟩
  | refused e e' => exact Or.inr ⟨e, e', rfl, rfl⟩

theorem Expr.lower_lower (e : Expr) : e.lower.lower = e.lower := by
  rw [lower, lower, Text.lower_lower]

theorem map_lower_lower (es : List Expr) :
    es.map Expr.lower = (es.map Expr.lower).map Expr.lower := by
  rw [List.map_map]
  exact List.map_congr_left fun e _ => (Expr.lower_lower e).symm

theorem Expr.ofText_lower (text : String) :
    Expr.ofText (Text.lower text) = (ofText text).lower := by
  rw [ofText, trim_lower]
  rfl

namespace Token

theorem argument_lower (piece : List Token × Nat) :
    argument (piece.1.map lower, piece.2) = (argument piece).map Expr.lower := by
  obtain ⟨ts, column⟩ := piece
  cases ts with
  | nil => rfl
  | cons t rest =>
    have text := congrArg Expr.ofText (slice_lower (t :: rest))
    rw [Expr.ofText_lower] at text
    exact congrArg Except.ok text

theorem mapM_argument_lower (pieces : List (List Token × Nat)) :
    (pieces.map fun piece => (piece.1.map lower, piece.2)).mapM argument =
      (pieces.mapM argument).map (List.map Expr.lower) := by
  induction pieces with
  | nil => rfl
  | cons piece rest ih =>
    rw [List.map_cons, List.mapM_cons, List.mapM_cons, ih, argument_lower]
    cases argument piece with
    | error e => rfl
    | ok e => cases rest.mapM argument <;> rfl

theorem arguments_lower (endColumn : Nat) (ts : List Token) :
    arguments endColumn (ts.map lower) = (arguments endColumn ts).map (List.map Expr.lower) := by
  unfold arguments
  rw [List.isEmpty_map, checkBalanced_lower, splitCommas_lower, mapM_argument_lower]
  split
  · rfl
  · cases checkBalanced ts <;> rfl

theorem callArguments_lower (ts : List Token) :
    callArguments (ts.map lower) = (callArguments ts).map (List.map Expr.lower) := by
  cases ts with
  | nil => rfl
  | cons t rest =>
    have all := arguments_lower (endColumn (t :: rest)) (t :: rest)
    have enclosed := arguments_lower (endColumn rest) (t :: rest)
    have ends := endColumn_lower (t :: rest)
    rw [List.map_cons] at all enclosed ends
    unfold callArguments
    rw [List.map_cons]
    dsimp only
    rw [kind_lower, closeGroup?_lower, ends, all]
    split
    · match closeGroup? 0 rest with
      | none => rfl
      | some (inside, close, []) => exact arguments_lower close.start inside
      | some (inside, close, u :: more) =>
        dsimp only [Option.map_some, List.map_cons]
        rw [endColumn_lower, enclosed]
        rfl
    · rfl

end Token

open Token (isWord_lower text_lower slice_lower kind_lower ofLine)

namespace Reader

variable {α β : Type} {line : String} {R : α → α → Prop} {S : β → β → Prop}

def AlikeAt (R : α → α → Prop) (x x' : Reader α) (ts : List Token) : Prop :=
  Both (fun r r' => R r.1 r'.1 ∧ r'.2 = r.2.map Token.lower) (x.run ts)
    (x'.run (ts.map Token.lower))

def Finds (line : String) (R : α → α → Prop) (x x' : Reader α) : Prop :=
  ∀ ts : List Token, ts <:+: ofLine line → AlikeAt R x x' ts

variable {ts : List Token} {c : Prop} {p : Token → Bool} {e e' : LineError}

theorem Finds.value {x x' : Reader α} (finds : Finds line R x x') (inside : ts <:+: ofLine line) :
    Both R (x.value ts) (x'.value (ts.map Token.lower)) :=
  (finds ts inside).map fun _ _ related => related.1

theorem AlikeAt.bind {x x' : Reader α} {f f' : α → Reader β} (first : AlikeAt R x x' ts)
    (next : ∀ a a' rest, R a a' → x.run ts = .ok (a, rest) → AlikeAt S (f a) (f' a') rest) :
    AlikeAt S (x >>= f) (x' >>= f') ts := by
  unfold AlikeAt at first ⊢
  rw [run_bind, run_bind]
  rcases first.elim with ⟨r, r', read, read', same, left⟩ | ⟨e, e', read, read'⟩
  · rw [read, read']
    dsimp only
    rw [left]
    exact next r.1 r'.1 r.2 same read
  · rw [read, read']
    exact .refused e e'

theorem AlikeAt.imp {R' : α → α → Prop} {x x' : Reader α} (alike : AlikeAt R x x' ts)
    (weaker : ∀ a a', R a a' → R' a a') : AlikeAt R' x x' ts :=
  Both.imp alike fun _ _ found => ⟨weaker _ _ found.1, found.2⟩

theorem finds_pure {a a' : α} (related : R a a') : Finds line R (pure a) (pure a') :=
  fun _ _ => .found ⟨related, rfl⟩

theorem finds_bind {x x' : Reader α} {f f' : α → Reader β} (first : Finds line R x x')
    (next : ∀ a a', R a a' → Finds line S (f a) (f' a')) : Finds line S (x >>= f) (x' >>= f') :=
  fun ts inside => (first ts inside).bind fun a a' rest related read =>
    next a a' related rest ((suffix_of_run read).isInfix.trans inside)

theorem finds_pure_bind {a a' : α} {f f' : α → Reader β} (next : Finds line S (f a) (f' a')) :
    Finds line S (pure a >>= f) (pure a' >>= f') :=
  finds_bind (R := fun b b' => b = a ∧ b' = a') (finds_pure ⟨rfl, rfl⟩) fun _ _ given =>
    given.1 ▸ given.2 ▸ next

theorem finds_next {x x' : Reader α} {f f' : α → Reader β} (first : Finds line Eq x x')
    (next : ∀ a, Finds line S (f a) (f' a)) : Finds line S (x >>= f) (x' >>= f') :=
  finds_bind first fun a _ same => same ▸ next a

theorem finds_fail : Finds line R (fail e) (fail e') := fun _ _ => .refused e e'

theorem finds_failHere (expected : String) : Finds line R (failHere expected) (failHere expected) :=
  fun _ _ => .refused _ _

theorem finds_if [Decidable c] {x x' y y' : Reader α} (yes : c → Finds line R x x')
    (no : ¬c → Finds line R y y') : Finds line R (if c then x else y) (if c then x' else y') := by
  by_cases holds : c
  · rw [if_pos holds, if_pos holds]
    exact yes holds
  · rw [if_neg holds, if_neg holds]
    exact no holds

theorem finds_branch [Decidable c] {x x' y y' : Reader α} {f f' : α → Reader β}
    (yes : Finds line R x x') (no : Finds line R y y')
    (next : ∀ a a', R a a' → Finds line S (f a) (f' a')) :
    Finds line S (if c then x >>= f else y >>= f) (if c then x' >>= f' else y' >>= f') :=
  finds_if (fun _ => finds_bind yes next) fun _ => finds_bind no next

theorem finds_when [Decidable c] {x x' : Reader α} {y y' : Reader β} (first : Finds line R x x')
    (next : Finds line S y y') :
    Finds line S (if c then x >>= fun _ => y else y) (if c then x' >>= fun _ => y' else y') :=
  finds_if (fun _ => finds_bind first fun _ _ _ => next) fun _ => next

theorem finds_unless [Decidable c] {x x' : Reader α} {y y' : Reader β} (first : Finds line R x x')
    (next : Finds line S y y') :
    Finds line S (if c then y else x >>= fun _ => y) (if c then y' else x' >>= fun _ => y') :=
  finds_if (fun _ => next) fun _ => finds_bind first fun _ _ _ => next

theorem finds_guard [Decidable c] {y y' : Reader β} (next : c → Finds line S y y') :
    Finds line S (if c then y else (fail e : Reader α) >>= fun _ => y)
      (if c then y' else (fail e' : Reader α) >>= fun _ => y') :=
  finds_if next fun _ => finds_bind (R := fun _ _ => False) finds_fail (by simp)

theorem finds_refuse [Decidable c] {y y' : Reader β} (next : ¬c → Finds line S y y') :
    Finds line S (if c then (fail e : Reader α) >>= fun _ => y else y)
      (if c then (fail e' : Reader α) >>= fun _ => y' else y') :=
  finds_if (fun _ => finds_bind (R := fun _ _ => False) finds_fail (by simp)) next

section Options

variable {P : α → Prop} {lower : α → α}

abbrev OptionTwins (P : α → Prop) (lower : α → α) : Option α → Option α → Prop :=
  Twins (fun found => ∀ a ∈ found, P a) (Option.map lower)

abbrev ListTwins (P : α → Prop) (lower : α → α) : List α → List α → Prop :=
  Twins (fun found => ∀ a ∈ found, P a) (List.map lower)

theorem finds_some {x x' : Reader α} (inner : Finds line (Twins P lower) x x') :
    Finds line (OptionTwins P lower) (some <$> x) (some <$> x') :=
  finds_bind inner fun _ _ found => finds_pure ⟨by simpa using found.1, congrArg some found.2⟩

theorem finds_none : Finds line (OptionTwins P lower) (pure none) (pure none) :=
  finds_pure ⟨by simp, rfl⟩

end Options

theorem finds_ahead :
    Finds line (fun ts ts' => ts <:+: ofLine line ∧ ts' = ts.map Token.lower) ahead ahead :=
  fun _ inside => .found ⟨⟨inside, rfl⟩, rfl⟩

theorem finds_nextKind : Finds line Eq nextKind nextKind := by
  refine finds_bind finds_ahead fun ts ts' found => finds_pure ?_
  rw [found.2]
  cases ts <;> rfl

theorem finds_skip : Finds line Eq skip skip :=
  fun _ _ => .found ⟨rfl, List.map_tail.symm⟩

theorem finds_acceptIf (caseless : ∀ t : Token, p t.lower = p t) :
    Finds line Eq (acceptIf p) (acceptIf p) := by
  intro ts _
  cases ts with
  | nil => exact .found ⟨rfl, rfl⟩
  | cons t rest =>
    rw [AlikeAt, List.map_cons, run_acceptIf, run_acceptIf, caseless]
    split
    · exact .found ⟨rfl, rfl⟩
    · exact .found ⟨rfl, rfl⟩

theorem finds_accept (kind : TokenKind) : Finds line Eq (accept kind) (accept kind) :=
  finds_acceptIf fun _ => rfl

theorem finds_acceptWord (name : String) : Finds line Eq (acceptWord name) (acceptWord name) :=
  finds_acceptIf (Token.isNamed_lower name)

theorem finds_take (caseless : ∀ t : Token, p t.lower = p t) (expected : String) :
    Finds line (fun t t' => (t ∈ ofLine line ∧ p t = true) ∧ t' = t.lower) (take p expected)
      (take p expected) := by
  intro ts inside
  cases ts with
  | nil => exact .refused _ _
  | cons t rest =>
    rw [AlikeAt, List.map_cons, run_take, run_take, caseless]
    split
    · rename_i holds
      exact .found ⟨⟨⟨inside.subset List.mem_cons_self, holds⟩, rfl⟩, rfl⟩
    · exact .refused _ _

theorem finds_expect (kind : TokenKind) (expected : String) :
    Finds line Eq (expect kind expected) (expect kind expected) :=
  finds_bind (finds_take (fun _ => rfl) expected) fun _ _ _ => finds_pure rfl

theorem finds_name (expected : String) :
    Finds line (Twins (WordOf line) Text.lower) (name expected) (name expected) := by
  refine finds_bind (finds_take isWord_lower expected) ?_
  rintro t _ ⟨⟨mem, word⟩, rfl⟩
  refine finds_pure ⟨⟨t, mem, word, rfl⟩, ?_⟩
  rw [text_lower]
  exact (lower_lower t.text).symm

theorem finds_lineEnd : Finds line Eq lineEnd lineEnd := by
  intro ts _
  cases ts with
  | nil => exact .found ⟨rfl, rfl⟩
  | cons t rest => exact .refused _ _

theorem finds_exprUntil (expected : String) (stop : TokenKind → Bool) :
    Finds line (Twins (Expr.From line) Expr.lower) (exprUntil expected stop)
      (exprUntil expected stop) := by
  intro ts inside
  have before : (Token.splitAtTop stop 0 ts).1 <+: ts := ⟨_, Token.splitAtTop_append stop 0 ts⟩
  rw [AlikeAt, run_exprUntil, run_exprUntil, Token.splitAtTop_lower]
  dsimp only
  rw [List.isEmpty_map, Token.checkBalanced_lower, slice_lower, Expr.ofText_lower]
  split
  · exact .refused _ _
  · cases checked : Token.checkBalanced (Token.splitAtTop stop 0 ts).1 with
    | error e => exact .refused _ _
    | ok _ =>
      refine .found ⟨⟨⟨_, before.isInfix.trans inside, ?_, rfl⟩, (Expr.lower_lower _).symm⟩, rfl⟩
      exact Token.balanced_of_check checked

theorem finds_restExpr (expected : String) :
    Finds line (Twins (Expr.From line) Expr.lower) (restExpr expected) (restExpr expected) :=
  finds_exprUntil expected _

theorem finds_callArguments :
    Finds line (ListTwins (Expr.From line) Expr.lower) callArguments callArguments := by
  intro ts inside
  rw [AlikeAt, run_callArguments, run_callArguments, Token.callArguments_lower]
  cases read : Token.callArguments ts with
  | error e => exact .refused e e
  | ok es => exact .found ⟨⟨Token.from_callArguments inside read, map_lower_lower es⟩, rfl⟩

theorem finds_group (expected : String) :
    Finds line (fun g g' => g.2.1 <:+: ofLine line ∧
      g' = (g.1.lower, g.2.1.map Token.lower, g.2.2.lower)) (group expected) (group expected) := by
  intro ts inside
  cases ts with
  | nil => exact .refused _ _
  | cons t rest =>
    rw [AlikeAt, List.map_cons, run_group, run_group, Token.closeGroup?_lower]
    cases closed : Token.closeGroup? 0 rest with
    | none => exact .refused _ _
    | some found =>
      have within := Token.infix_of_closeGroup? closed
      exact .found ⟨⟨within.trans ((List.suffix_cons t rest).isInfix.trans inside), rfl⟩, rfl⟩

theorem finds_groupArguments {inside : List Token} (close : Token)
    (inLine : inside <:+: ofLine line) :
    Finds line (ListTwins (Expr.From line) Expr.lower) (groupArguments inside close)
      (groupArguments (inside.map Token.lower) close.lower) := by
  unfold groupArguments
  rw [Token.arguments_lower, Token.start_lower]
  cases read : Token.arguments close.start inside with
  | error e => exact finds_fail
  | ok es => exact finds_pure ⟨Token.from_arguments inLine read, map_lower_lower es⟩

theorem length_lt_of_accept {kind : TokenKind} {rest : List Token}
    (taken : (accept kind).run ts = .ok (true, rest)) : rest.length < ts.length := by
  cases ts with
  | nil => simp [run, accept, acceptIf] at taken
  | cons t more =>
    rw [accept, run_acceptIf] at taken
    split at taken
    · obtain ⟨-, rfl⟩ := Prod.mk.inj (Except.ok.inj taken)
      simp
    · simp at taken

theorem finds_commaList {P : α → Prop} {lower : α → α} {item item' : Reader α}
    (each : Finds line (Twins P lower) item item') :
    Finds line (Twins (fun found => found ≠ [] ∧ ∀ a ∈ found, P a) (List.map lower))
      (commaList item) (commaList item') := by
  intro ts inside
  -- each comma leaves fewer tokens
  induction n : ts.length using Nat.strongRecOn generalizing ts with
  | ind n ih =>
  rw [AlikeAt, run_commaList_eq, run_commaList_eq]
  refine (each ts inside).bind fun a a' rest found read => ?_
  have left := (suffix_of_run read).isInfix.trans inside
  refine (finds_accept _ rest left).bind fun more _ rest' given accepted => ?_
  subst given
  have left' := (suffix_of_run accepted).isInfix.trans left
  cases more with
  | false => exact finds_pure ⟨by simpa using found.1, congrArg ([·]) found.2⟩ rest' left'
  | true =>
    have shorter := (suffix_of_run read).length_le
    have further := length_lt_of_accept accepted
    refine (ih rest'.length (by omega) rest' left' rfl).bind fun as as' last others behind => ?_
    have left'' := (suffix_of_run behind).isInfix.trans left'
    refine finds_pure ⟨⟨List.cons_ne_nil a as, ?_⟩, ?_⟩ last left''
    · exact List.forall_mem_cons.2 ⟨found.1, others.1.2⟩
    · exact List.cons_eq_cons.2 ⟨found.2, others.2⟩

end Reader

namespace Phrase

open Reader

variable {line : String}

theorem finds_scopes {soFar soFar' : String} (same : UpTo Text.lower soFar soFar') :
    Finds line (Twins (fun name => ∃ parts : List Token,
        (∀ t ∈ parts, t ∈ ofLine line ∧ t.isWord = true) ∧
          name = parts.foldl (fun text t => text ++ "::" ++ t.text) soFar) Text.lower)
      (scopes soFar) (scopes soFar') := by
  intro ts inside
  induction n : ts.length using Nat.strongRecOn generalizing ts soFar soFar' with
  | ind n ih =>
  unfold AlikeAt
  rw [run_scopes_eq, run_scopes_eq]
  refine (finds_accept _ ts inside).bind fun more _ rest given accepted => ?_
  subst given
  have left := (suffix_of_run accepted).isInfix.trans inside
  cases more with
  | false => exact finds_pure ⟨⟨[], by simp, rfl⟩, same⟩ rest left
  | true =>
    have further := length_lt_of_accept accepted
    refine (finds_name _ rest left).bind ?_
    rintro _ part' rest' ⟨⟨part, mem, word, rfl⟩, samePart⟩ read
    have shorter := (suffix_of_run read).length_le
    have longer : UpTo Text.lower (soFar ++ "::" ++ part.text) (soFar' ++ "::" ++ part') := by
      rw [UpTo, lower_append, lower_append, same, samePart, ← lower_append, ← lower_append]
    have left' := (suffix_of_run read).isInfix.trans left
    refine (ih rest'.length (by omega) longer rest' left' rfl).imp ?_
    rintro full full' ⟨⟨parts, words, joined⟩, sameFull⟩
    exact ⟨⟨part :: parts, List.forall_mem_cons.2 ⟨⟨mem, word⟩, words⟩, joined⟩, sameFull⟩

theorem finds_typeRef : Finds line (Twins (TypeRef.From line) TypeRef.lower) typeRef typeRef := by
  refine finds_bind (finds_name _) ?_
  rintro _ first' ⟨⟨first, mem, word, rfl⟩, same⟩
  refine finds_bind (finds_scopes same) ?_
  rintro full full' ⟨⟨parts, words, joined⟩, sameFull⟩
  refine finds_next (finds_accept _) fun pointer => finds_pure ⟨⟨first, parts, ?_, joined⟩, ?_⟩
  · exact List.forall_mem_cons.2 ⟨⟨mem, word⟩, words⟩
  · simp only [UpTo, TypeRef.lower, sameFull]

theorem finds_bounds : Finds line (ListTwins (Expr.From line) Expr.lower) bounds bounds := by
  refine finds_next finds_nextKind fun kind => ?_
  split
  · refine finds_bind (finds_group _) ?_
    rintro ⟨first, inside, close⟩ _ ⟨inLine, rfl⟩
    dsimp only
    rw [List.isEmpty_map]
    exact finds_if (fun _ => finds_fail) fun _ => finds_groupArguments close inLine
  · exact finds_pure ⟨by simp, rfl⟩

theorem finds_declaration :
    Finds line (Twins (Declaration.From line) Declaration.lower) declaration declaration := by
  refine finds_bind (finds_name _) fun name name' word => ?_
  refine finds_bind finds_bounds fun bounds bounds' sizes => ?_
  -- what follows the type is the same with and without one
  have rest {type type' : Option TypeRef} (isNew : Bool)
      (types : OptionTwins (TypeRef.From line) TypeRef.lower type type') :
      Finds line (Twins (Declaration.From line) Declaration.lower)
        (do
          let initial ←
            if ← accept (.symbol .equals) then
              some <$> exprUntil "initial value" (· == .symbol .comma)
            else pure none
          return ⟨name, bounds, type, isNew, initial⟩)
        (do
          let initial ←
            if ← accept (.symbol .equals) then
              some <$> exprUntil "initial value" (· == .symbol .comma)
            else pure none
          return ⟨name', bounds', type', isNew, initial⟩) := by
    refine finds_next (finds_accept _) fun given => ?_
    refine finds_branch (finds_some (finds_exprUntil _ _)) finds_none ?_
    intro initial initial' value
    refine finds_pure ⟨⟨word.1, sizes.1, types.1, value.1⟩, ?_⟩
    simp only [UpTo, Declaration.lower, word.2, sizes.2, types.2, value.2]
  refine finds_next (finds_accept _) fun typed => finds_if (fun _ => ?_) fun _ =>
    finds_pure_bind (rest false ⟨by simp, rfl⟩)
  refine finds_next (finds_accept _) fun isNew => ?_
  refine finds_bind finds_typeRef fun type type' found => finds_pure_bind ?_
  exact rest isNew ⟨by simpa using found.1, congrArg some found.2⟩

theorem startsArrayLiteral_lower (ts : List Token) :
    startsArrayLiteral (ts.map Token.lower) = startsArrayLiteral ts := by
  match ts with
  | [] | [_] | [_, _] | [_, _, _] => rfl
  | name :: left :: right :: as :: rest =>
    have split := Token.splitAtTop_lower (· == .symbol .leftBrace) 0
      (name :: left :: right :: as :: rest)
    simp only [List.map_cons] at split
    simp only [List.map_cons, startsArrayLiteral, split, isWord_lower, kind_lower,
      List.isEmpty_map]

theorem finds_arrayLiteral? (constant : Bool) :
    Finds line (OptionTwins (ArrayLiteral.From line) ArrayLiteral.lower) (arrayLiteral? constant)
      (arrayLiteral? constant) := by
  refine finds_bind finds_ahead ?_
  rintro ts _ ⟨-, rfl⟩
  rw [startsArrayLiteral_lower]
  refine finds_if (fun _ => ?_) fun _ => finds_none
  refine finds_bind (finds_name _) fun name name' word => ?_
  refine finds_next finds_skip fun _ => finds_next finds_skip fun _ => finds_next finds_skip ?_
  intro _
  refine finds_bind finds_typeRef fun type type' known => ?_
  refine finds_next (finds_expect _ _) fun _ => finds_next finds_nextKind fun kind => ?_
  refine finds_when (R := Eq) (finds_failHere _) ?_
  refine finds_bind (finds_group _) ?_
  rintro ⟨first, inside, close⟩ _ ⟨inLine, rfl⟩
  refine finds_bind (finds_groupArguments close inLine) fun elements elements' listed => ?_
  refine finds_next finds_lineEnd fun _ => finds_pure ⟨?_, ?_⟩
  · simpa using ⟨word.1, known.1, listed.1⟩
  · simp only [UpTo, Option.map_some, ArrayLiteral.lower, word.2, known.2, listed.2]

abbrev FindsAside (line : String) (x x' : Reader Action) : Prop :=
  Finds line (Twins (Action.Aside line) Action.lower) x x'

theorem finds_declarationLine {wrap : List Declaration → Action}
    (wraps : ∀ ds ds', Twins (fun ds => ds ≠ [] ∧ ∀ d ∈ ds, d.From line) (List.map .lower) ds ds' →
      Twins (Action.Aside line) Action.lower (wrap ds) (wrap ds')) :
    FindsAside line (declarationLine wrap) (declarationLine wrap) := by
  refine finds_bind (finds_arrayLiteral? false) fun found found' ⟨given, same⟩ => ?_
  match found, found', given, same with
  | some literal, some literal', given, same =>
    exact finds_pure
      ⟨⟨given literal rfl, rfl⟩, congrArg Action.arrayLiteral (Option.some.inj same)⟩
  | none, none, _, _ =>
    exact finds_bind (finds_commaList finds_declaration) fun ds ds' all =>
      finds_next finds_lineEnd fun _ => finds_pure (wraps ds ds' all)

theorem finds_dim : FindsAside line (declarationLine .dim) (declarationLine .dim) :=
  finds_declarationLine fun _ _ all => ⟨⟨all.1, rfl⟩, congrArg Action.dim all.2⟩

theorem finds_static : FindsAside line (declarationLine .static) (declarationLine .static) :=
  finds_declarationLine fun _ _ all => ⟨⟨all.1, rfl⟩, congrArg Action.static all.2⟩

theorem finds_constant : FindsAside line constant constant := by
  refine finds_bind (finds_arrayLiteral? true) fun found found' ⟨given, same⟩ => ?_
  match found, found', given, same with
  | some literal, some literal', given, same =>
    exact finds_pure
      ⟨⟨given literal rfl, rfl⟩, congrArg Action.arrayLiteral (Option.some.inj same)⟩
  | none, none, _, _ =>
    refine finds_bind (finds_name _) fun name name' word => ?_
    refine finds_next (finds_accept _) fun typed => finds_when finds_typeRef ?_
    refine finds_next (finds_expect _ _) fun _ => ?_
    refine finds_bind (finds_restExpr _) fun value value' given => ?_
    refine finds_pure ⟨⟨⟨word.1, given.1⟩, rfl⟩, ?_⟩
    simp only [UpTo, Action.lower, word.2, given.2]

theorem finds_typeStart : FindsAside line typeStart typeStart :=
  finds_bind (finds_name _) fun _ _ word => finds_next finds_lineEnd fun _ =>
    finds_pure ⟨⟨word.1, rfl⟩, congrArg Action.typeStart word.2⟩

theorem finds_enumStart : FindsAside line enumStart enumStart :=
  finds_bind (finds_name _) fun _ _ word => finds_next finds_lineEnd fun _ =>
    finds_pure ⟨⟨word.1, rfl⟩, congrArg Action.enumStart word.2⟩

abbrev FindsEntry (line : String) (body : BodyKind) (x : Reader Action) : Prop :=
  Finds line (Twins (Action.Within body line) Action.lower) x x

theorem finds_typeField : FindsEntry line .record typeField := by
  have field : FindsEntry line .record
      (do
        let field ← declaration
        lineEnd
        return .typeField field) :=
    finds_bind finds_declaration fun _ _ found => finds_next finds_lineEnd fun _ =>
      finds_pure ⟨⟨found.1, rfl⟩, congrArg Action.typeField found.2⟩
  refine finds_next finds_nextKind fun kind => ?_
  split
  case h_4 => exact field
  all_goals exact finds_next finds_skip fun _ => field

theorem finds_enumMember : FindsEntry line .enumeration enumMember := by
  refine finds_bind (finds_name _) fun name name' word => ?_
  refine finds_next (finds_accept _) fun given => finds_if (fun _ => ?_) fun _ => ?_
  · refine finds_bind (finds_restExpr _) fun value value' found => ?_
    refine finds_pure ⟨⟨⟨word.1, by simpa using found.1⟩, rfl⟩, ?_⟩
    simp only [UpTo, Action.lower, word.2, Option.map_some, found.2]
  · refine finds_next finds_lineEnd fun _ => finds_pure ⟨⟨⟨word.1, by simp⟩, rfl⟩, ?_⟩
    simp only [UpTo, Action.lower, word.2, Option.map_none]

theorem finds_parameter :
    Finds line (Twins (Parameter.From line) Parameter.lower) parameter parameter := by
  refine finds_next (finds_accept _) fun isOptional => finds_next (finds_accept _) fun byRef => ?_
  refine finds_unless (finds_accept _) ?_
  refine finds_bind (finds_name _) fun name name' word => ?_
  refine finds_next (finds_accept _) fun isArray => finds_when (finds_expect _ _) ?_
  refine finds_next (finds_accept _) fun typed => ?_
  refine finds_branch (finds_some finds_typeRef) finds_none fun type type' known => ?_
  refine finds_next (finds_accept _) fun given => ?_
  refine finds_branch (finds_some (finds_exprUntil _ _)) finds_none fun initial initial' value => ?_
  refine finds_pure ⟨⟨word.1, known.1, value.1⟩, ?_⟩
  simp only [UpTo, Parameter.lower, word.2, known.2, value.2]

theorem finds_parameters :
    Finds line (ListTwins (Parameter.From line) Parameter.lower) parameters parameters := by
  refine finds_next (finds_accept _) fun given => finds_if (fun _ => ?_) fun _ =>
    finds_pure ⟨by simp, rfl⟩
  refine finds_next finds_nextKind fun kind => ?_
  refine finds_branch (R := ListTwins (Parameter.From line) Parameter.lower)
    (finds_pure ⟨by simp, rfl⟩) ?_ fun found found' all => ?_
  · exact fun ts inside => (finds_commaList finds_parameter ts inside).imp fun _ _ all =>
      ⟨all.1.2, all.2⟩
  · exact finds_next (finds_expect _ _) fun _ => finds_pure all

theorem finds_header (kind : ProcedureKind) :
    Finds line (Twins (ProcedureHeader.From line) ProcedureHeader.lower) (header kind)
      (header kind) := by
  refine finds_bind (finds_name _) fun name name' word => ?_
  refine finds_bind finds_parameters fun parameters parameters' all => ?_
  refine finds_next (finds_accept _) fun typed => ?_
  refine finds_branch (finds_some finds_typeRef) finds_none fun result result' known => ?_
  refine finds_next finds_lineEnd fun _ => finds_pure ⟨⟨word.1, all.1, known.1⟩, ?_⟩
  simp only [UpTo, ProcedureHeader.lower, word.2, all.2, known.2]

variable {a : Action} {kind : TokenKind} {t : Token} {ts : List Token}

theorem aside_endAction? (found : endAction? kind = some a) : a.Aside line := by
  unfold endAction? at found
  split at found
  all_goals first | (obtain rfl := Option.some.inj found; exact ⟨trivial, rfl⟩) | simp at found

theorem finds_ending : FindsAside line ending ending := by
  refine finds_next finds_nextKind fun kind => ?_
  split
  · exact finds_pure ⟨⟨Or.inr rfl, rfl⟩, rfl⟩
  · split
    · exact finds_failHere _
    · rename_i found
      exact finds_next finds_skip fun _ => finds_next finds_lineEnd fun _ =>
        finds_pure ⟨aside_endAction? found, rfl⟩

theorem finds_condition :
    Finds line (Twins (Expr.From line) Expr.lower) condition condition := finds_exprUntil _ _

theorem finds_elseIf : FindsAside line elseIf elseIf :=
  finds_bind finds_condition fun _ _ tested => finds_next (finds_accept _) fun _ =>
    finds_next finds_lineEnd fun _ =>
      finds_pure ⟨⟨tested.1, rfl⟩, congrArg Action.elseIf tested.2⟩

theorem finds_elseBlock : FindsAside line elseBlock elseBlock :=
  finds_next (finds_accept _) fun _ => finds_if (fun _ => finds_elseIf) fun _ =>
    finds_next finds_lineEnd fun _ => finds_pure ⟨⟨trivial, rfl⟩, rfl⟩

theorem finds_forLoop : FindsAside line forLoop forLoop := by
  refine finds_next (finds_accept _) fun each => finds_if (fun _ => ?_) fun _ => ?_
  · refine finds_bind (finds_name _) fun counter counter' word => ?_
    refine finds_next (finds_expect _ _) fun _ => ?_
    refine finds_bind (finds_restExpr _) fun collection collection' given => ?_
    refine finds_pure ⟨⟨⟨word.1, given.1⟩, rfl⟩, ?_⟩
    simp only [UpTo, Action.lower, word.2, given.2]
  · refine finds_bind (finds_name _) fun counter counter' word => ?_
    refine finds_next (finds_expect _ _) fun _ => ?_
    refine finds_bind (finds_exprUntil _ _) fun start start' first => ?_
    refine finds_next (finds_expect _ _) fun _ => ?_
    refine finds_bind (finds_exprUntil _ _) fun stop stop' last => ?_
    refine finds_next (finds_accept _) fun given => ?_
    refine finds_branch (finds_some (finds_restExpr _)) finds_none fun step step' change => ?_
    refine finds_pure ⟨⟨⟨word.1, first.1, last.1, change.1⟩, rfl⟩, ?_⟩
    simp only [UpTo, Action.lower, word.2, first.2, last.2, change.2]

theorem finds_whileLoop : FindsAside line whileLoop whileLoop :=
  finds_bind (finds_restExpr _) fun _ _ tested =>
    finds_pure ⟨⟨tested.1, rfl⟩, congrArg Action.whileLoop tested.2⟩

theorem finds_loopTest :
    Finds line (Twins (LoopTest.From line) LoopTest.lower) loopTest loopTest := by
  refine finds_next (finds_accept _) fun given => finds_if (fun _ => ?_) fun _ => ?_
  · exact finds_bind (finds_restExpr _) fun _ _ tested =>
      finds_pure ⟨tested.1, congrArg LoopTest.whileTrue tested.2⟩
  · refine finds_next (finds_accept _) fun given => finds_if (fun _ => ?_) fun _ => ?_
    · exact finds_bind (finds_restExpr _) fun _ _ tested =>
        finds_pure ⟨tested.1, congrArg LoopTest.untilTrue tested.2⟩
    · exact finds_next finds_lineEnd fun _ => finds_pure ⟨trivial, rfl⟩

theorem finds_wend : FindsAside line wend wend :=
  finds_next finds_lineEnd fun _ => finds_pure ⟨⟨trivial, rfl⟩, rfl⟩

theorem finds_select : FindsAside line select select :=
  finds_next (finds_expect _ _) fun _ => finds_bind (finds_restExpr _) fun _ _ subject =>
    finds_pure ⟨⟨subject.1, rfl⟩, congrArg Action.select subject.2⟩

theorem finds_caseValue :
    Finds line (Twins (CaseValue.From line) CaseValue.lower) caseValue caseValue := by
  refine finds_next (finds_accept _) fun given => finds_if (fun _ => ?_) fun _ => ?_
  · refine finds_bind (finds_take (fun _ => rfl) _) ?_
    rintro operator _ ⟨⟨mem, -⟩, rfl⟩
    refine finds_bind (finds_exprUntil _ _) fun value value' found => ?_
    refine finds_pure ⟨⟨⟨operator, mem, rfl⟩, found.1⟩, ?_⟩
    simp only [UpTo, CaseValue.lower, text_lower, lower_lower, found.2]
  · refine finds_bind (finds_exprUntil _ _) fun low low' first => ?_
    refine finds_next (finds_accept _) fun given => finds_if (fun _ => ?_) fun _ => ?_
    · refine finds_bind (finds_exprUntil _ _) fun high high' last => ?_
      refine finds_pure ⟨⟨first.1, last.1⟩, ?_⟩
      simp only [UpTo, CaseValue.lower, first.2, last.2]
    · exact finds_pure ⟨first.1, congrArg CaseValue.value first.2⟩

theorem finds_caseOf : FindsAside line caseOf caseOf := by
  refine finds_next (finds_accept _) fun given => finds_if (fun _ => ?_) fun _ => ?_
  · exact finds_next finds_lineEnd fun _ => finds_pure ⟨⟨trivial, rfl⟩, rfl⟩
  · exact finds_bind (finds_commaList finds_caseValue) fun _ _ all =>
      finds_next finds_lineEnd fun _ => finds_pure ⟨⟨all.1, rfl⟩, congrArg Action.caseOf all.2⟩

theorem finds_every :
    Finds line (Twins (Expr.From line) Expr.lower) Phrase.every Phrase.every :=
  finds_bind (finds_exprUntil _ _) fun _ _ interval => finds_next (finds_expect _ _) fun _ =>
    finds_next finds_lineEnd fun _ => finds_pure interval

theorem aside_exitAction? (found : exitAction? kind = some a) : a.Aside line := by
  unfold exitAction? at found
  split at found
  all_goals first | (obtain rfl := Option.some.inj found; exact ⟨trivial, rfl⟩) | simp at found

theorem finds_exit : FindsAside line exit exit := by
  refine finds_next finds_nextKind fun kind => ?_
  split
  · exact finds_failHere _
  · rename_i a eq
    obtain ⟨kind, -, found⟩ := Option.bind_eq_some_iff.1 eq
    exact finds_next finds_skip fun _ => finds_next finds_lineEnd fun _ =>
      finds_pure ⟨aside_exitAction? found, rfl⟩

theorem finds_continueLoop : FindsAside line continueLoop continueLoop := by
  have ends : FindsAside line (do lineEnd; return .continueLoop)
      (do lineEnd; return .continueLoop) :=
    finds_next finds_lineEnd fun _ => finds_pure ⟨⟨trivial, rfl⟩, rfl⟩
  refine finds_next finds_nextKind fun kind => ?_
  split
  case h_4 => exact ends
  all_goals exact finds_next finds_skip fun _ => ends

theorem finds_goto : FindsAside line goto goto := by
  refine finds_bind (finds_take (fun _ => rfl) _) ?_
  rintro label _ ⟨⟨mem, -⟩, rfl⟩
  refine finds_next finds_lineEnd fun _ => finds_pure ⟨⟨⟨label, mem, rfl⟩, rfl⟩, ?_⟩
  simp only [UpTo, Action.lower, text_lower, lower_lower]

theorem finds_atEnd {R : α → α → Prop} {x x' y y' : Reader α} (yes : Finds line R x x')
    (no : Finds line R y y') : Finds line R (do if (← ahead).isEmpty then x else y)
      (do if (← ahead).isEmpty then x' else y') := by
  refine finds_bind finds_ahead ?_
  rintro ts _ ⟨-, rfl⟩
  rw [List.isEmpty_map]
  exact finds_if (fun _ => yes) fun _ => no

theorem finds_returnValue : FindsAside line returnValue returnValue :=
  finds_atEnd (finds_pure ⟨⟨trivial, rfl⟩, rfl⟩) (finds_bind (finds_restExpr _) fun _ _ value =>
    finds_pure ⟨⟨value.1, rfl⟩, congrArg Action.returnValue value.2⟩)

theorem finds_withObject : FindsAside line withObject withObject :=
  finds_bind (finds_restExpr _) fun _ _ object =>
    finds_pure ⟨⟨object.1, rfl⟩, congrArg Action.withObject object.2⟩

abbrev FindsDeed (line : String) (x x' : Reader Action) : Prop :=
  Finds line (Twins (Action.Deed line) Action.lower) x x'

abbrev FindsErrand (line : String) (x x' : Reader Action) : Prop :=
  Finds line (Twins (Action.Errand line) Action.lower) x x'

theorem splitMembers_lower (ts : List Token) :
    splitMembers (ts.map Token.lower) =
      ((splitMembers ts).1.map Token.lower, (splitMembers ts).2.map Token.lower) := by
  fun_induction splitMembers ts with
  | case1 => rfl
  | case2 => rfl
  | case3 t member rest path members after eq ih =>
    rw [eq] at ih
    rw [List.map_cons, List.map_cons, splitMembers, ih]
    exact if_pos path
  | case4 t member rest path =>
    rw [List.map_cons, List.map_cons, splitMembers]
    exact if_neg path

theorem isPath_of_mem_splitMembers (mem : t ∈ (splitMembers ts).1) : t.IsPath := by
  fun_induction splitMembers ts with
  | case1 => simp at mem
  | case2 => simp at mem
  | case3 first member rest path members after eq ih =>
    obtain ⟨isMember, isWord⟩ := Bool.and_eq_true_iff.1 path
    rcases List.mem_cons.1 mem with rfl | mem
    · exact Or.inr isMember
    · rcases List.mem_cons.1 mem with rfl | mem
      · exact Or.inl isWord
      · exact ih (by simpa [eq] using mem)
  | case4 => simp at mem

theorem finds_members :
    Finds line (fun ts ts' => (ts ⊆ ofLine line ∧ ∀ t ∈ ts, t.IsPath) ∧ ts' = ts.map Token.lower)
      members members := by
  intro ts inside
  have parts := splitMembers_append ts
  rw [AlikeAt, run_readMembers, run_readMembers, splitMembers_lower]
  refine .found ⟨⟨⟨fun t mem => ?_, fun t => isPath_of_mem_splitMembers⟩, rfl⟩, rfl⟩
  exact inside.subset (parts ▸ List.mem_append_left _ mem)

theorem finds_call : FindsErrand line call call := by
  refine finds_bind (finds_take isWord_lower _) ?_
  rintro first _ ⟨⟨mem, word⟩, rfl⟩
  refine finds_bind finds_members ?_
  rintro members _ ⟨⟨inside, path⟩, rfl⟩
  rw [← List.map_cons, slice_lower]
  refine finds_next finds_nextKind fun next => ?_
  have rest : FindsErrand line
      (do return .call (Token.slice (first :: members)) (← callArguments))
      (do return .call (Text.lower (Token.slice (first :: members))) (← callArguments)) := by
    refine finds_bind finds_callArguments fun es es' all =>
      finds_pure ⟨⟨⟨⟨?_, all.1⟩, rfl⟩, rfl⟩, ?_⟩
    · exact ⟨first, members, word, path, List.cons_subset.2 ⟨mem, inside⟩, rfl⟩
    · simp only [UpTo, Action.lower, lower_lower, all.2]
  split
  · exact finds_unless (R := Eq) (finds_failHere _) rest
  · exact rest

theorem isPlace_cons (t : Token) (rest : List Token) :
    isPlace (t :: rest) =
      if t.kind.isMember then
        match rest with
        | [] => false
        | member :: after => member.isWord && isPlace after
      else if t.kind == .symbol .leftParen || t.kind == .symbol .leftBracket then
        match Token.closeGroup? 0 rest with
        | none => false
        | some found => isPlace found.2.2
      else false := by
  conv => lhs; unfold isPlace
  split
  · cases rest <;> rfl
  · split
    · split <;> rename_i closed <;> rw [closed]
    · rfl

theorem isPlace_lower (ts : List Token) : isPlace (ts.map Token.lower) = isPlace ts := by
  fun_induction isPlace ts with
  | case1 => rw [List.map_nil, isPlace]
  | case2 t leads => rw [List.map_cons, isPlace_cons, kind_lower, if_pos leads, List.map_nil]
  | case3 t leads member after ih =>
    rw [List.map_cons, isPlace_cons, kind_lower, if_pos leads, List.map_cons]
    dsimp only
    rw [ih, isWord_lower]
  | case4 t rest leads opens closed =>
    rw [List.map_cons, isPlace_cons, kind_lower, if_neg leads, if_pos opens,
      Token.closeGroup?_lower, closed, Option.map_none]
  | case5 t rest leads opens inside close after closed ih =>
    rw [List.map_cons, isPlace_cons, kind_lower, if_neg leads, if_pos opens,
      Token.closeGroup?_lower, closed, Option.map_some]
    exact ih
  | case6 t rest leads opens =>
    rw [List.map_cons, isPlace_cons, kind_lower, if_neg leads, if_neg opens]

theorem isTarget_lower (ts : List Token) : isTarget (ts.map Token.lower) = isTarget ts := by
  cases ts with
  | nil => rfl
  | cons t rest => rw [List.map_cons, isTarget, isPlace_lower, isTarget, isWord_lower]

theorem finds_assignment? (inside : ts <:+: ofLine line) :
    Option.Rel (Both (Twins (Action.Errand line) Action.lower)) (assignment? ts)
      (assignment? (ts.map Token.lower)) := by
  have both := Token.splitAtTop_append (· == .symbol .equals) 0 ts
  unfold assignment?
  rw [Token.splitAtTop_lower]
  revert both
  generalize Token.splitAtTop (· == .symbol .equals) 0 ts = parts
  obtain ⟨target, rest⟩ := parts
  intro both
  cases rest with
  | nil => exact .none
  | cons sign rest =>
    have before : target <:+: ofLine line := (List.IsPrefix.isInfix ⟨_, both⟩).trans inside
    have after : rest <:+: ofLine line :=
      (List.IsSuffix.isInfix ⟨target ++ [sign], by simpa using both⟩).trans inside
    simp only [List.map_cons, isTarget_lower, slice_lower]
    split
    · rename_i isTarget
      refine .some (((finds_restExpr _).value after).map fun value value' found =>
        ⟨⟨⟨⟨?_, found.1⟩, rfl⟩, rfl⟩, ?_⟩)
      · cases target with
        | nil => simp [Phrase.isTarget] at isTarget
        | cons t more =>
          exact ⟨t, more, (Bool.and_eq_true_iff.1 isTarget).1, before.subset, rfl⟩
      · simp only [UpTo, Action.lower, lower_lower, found.2]
    · exact .none

theorem length_eq_of_twins {es es' : List Expr} (same : UpTo (List.map Expr.lower) es es') :
    es.length = es'.length := by
  simpa using congrArg List.length same

theorem finds_board (function : BoardFunction) (column : Nat) :
    FindsDeed line (board function column) (board function column) := by
  refine finds_bind finds_callArguments fun es es' ⟨all, same⟩ => ?_
  rw [← length_eq_of_twins same]
  exact finds_refuse fun fits =>
    finds_pure ⟨⟨⟨by simpa using fits, all⟩, rfl⟩, congrArg (Action.board function) same⟩

theorem finds_draw (command : DrawCommand) (column : Nat) :
    FindsErrand line (draw command column) (draw command column) := by
  refine finds_bind finds_callArguments fun es es' ⟨all, same⟩ => ?_
  rw [← length_eq_of_twins same]
  exact finds_guard fun fits =>
    finds_pure ⟨⟨⟨⟨fits, all⟩, rfl⟩, rfl⟩, congrArg (Action.draw command) same⟩

theorem finds_sprite (command : SpriteCommand) (column : Nat) :
    FindsErrand line (sprite command column) (sprite command column) := by
  refine finds_bind finds_callArguments fun es es' ⟨all, same⟩ => ?_
  match es, es', all, same with
  | [], [], _, _ => exact finds_fail
  | object :: es, object' :: es', all, same =>
    obtain ⟨sameObject, sameRest⟩ := List.cons.inj same
    have sameText : Text.lower object.text = Text.lower object'.text :=
      congrArg Expr.text sameObject
    have plain : object'.text.toList.all isNameChar = object.text.toList.all isNameChar := by
      rw [← all_lower caseless_isNameChar object.text, sameText, all_lower caseless_isNameChar]
    dsimp only
    rw [plain, ← length_eq_of_twins sameRest]
    refine finds_guard fun plain => finds_guard fun fits => finds_pure ⟨⟨⟨?_, rfl⟩, rfl⟩, ?_⟩
    · exact ⟨List.all_eq_true.1 plain, fits, (List.forall_mem_cons.1 all).2⟩
    · simp only [UpTo, Action.lower, sameText, sameRest]

theorem finds_messageBox : FindsErrand line messageBox messageBox := by
  refine finds_bind finds_callArguments fun es es' ⟨all, same⟩ => ?_
  match es, es', all, same with
  | [], [], _, _ => exact finds_fail
  | message :: _, message' :: _, all, same =>
    exact finds_pure
      ⟨⟨⟨all _ List.mem_cons_self, rfl⟩, rfl⟩, congrArg Action.messageBox (List.cons.inj same).1⟩

theorem finds_randomize : FindsAside line randomize randomize :=
  finds_atEnd (finds_pure ⟨⟨by simp [Action.From], rfl⟩, rfl⟩)
    (finds_bind (finds_restExpr _) fun _ _ seed => finds_pure
      ⟨⟨by simpa [Action.From] using seed.1, rfl⟩, congrArg (Action.randomize ∘ some) seed.2⟩)

theorem finds_doEvents : FindsAside line doEvents doEvents :=
  finds_next (finds_accept _) fun _ => finds_when (finds_expect _ _)
    (finds_next finds_lineEnd fun _ => finds_pure ⟨⟨trivial, rfl⟩, rfl⟩)

theorem finds_includeFile : FindsAside line includeFile includeFile := by
  refine finds_next (finds_acceptWord _) fun given => ?_
  refine finds_unless (R := Eq) (finds_failHere _) ?_
  refine finds_bind finds_ahead ?_
  rintro ts _ ⟨inside, rfl⟩
  rw [slice_lower, trim_lower]
  dsimp only
  rw [isEmpty_lower]
  refine finds_when (R := Eq) finds_fail (finds_pure ⟨⟨⟨ts, inside.subset, rfl⟩, rfl⟩, ?_⟩)
  simp only [UpTo, Action.lower, lower_lower]

theorem base?_lower (t : Token) : base? t.lower = base? t := by
  rw [base?, kind_lower, text_lower, readUnsigned?_lower, base?]

theorem base_le_one {base : Nat} (found : base? t = some base) : base ≤ 1 := by
  unfold base? at found
  split at found
  · simpa using (Option.filter_eq_some_iff.1 found).2
  · simp at found

theorem finds_option {line' : String} (same : UpTo Text.lower line line') :
    FindsAside line (option line) (option line') := by
  refine finds_next (finds_acceptWord _) fun given => finds_if (fun _ => ?_) fun _ => ?_
  · refine finds_bind finds_ahead ?_
    rintro ts _ ⟨-, rfl⟩
    have found : (ts.map Token.lower).head?.bind base? = ts.head?.bind base? := by
      cases ts with
      | nil => rfl
      | cons t rest => exact base?_lower t
    rw [found]
    split
    · exact finds_failHere _
    · rename_i base eq
      obtain ⟨t, -, read⟩ := Option.bind_eq_some_iff.1 eq
      exact finds_next finds_skip fun _ => finds_next finds_lineEnd fun _ =>
        finds_pure ⟨⟨base_le_one read, rfl⟩, rfl⟩
  · refine finds_next (finds_acceptWord _) fun given => finds_if (fun _ => ?_) fun _ => ?_
    · exact finds_next finds_lineEnd fun _ => finds_pure ⟨⟨trivial, rfl⟩, rfl⟩
    · exact finds_pure ⟨⟨Or.inl rfl, rfl⟩, congrArg Action.unsupported same⟩

end Phrase

end BasicSketch
