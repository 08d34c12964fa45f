import BasicSketch.Proofs.Joining
import BasicSketch.Proofs.Reading

set_option autoImplicit false

/-!
The forms of a call. A line calls a procedure with the arguments in parentheses, with `Call` before
its name or without, or with the arguments behind the name as they are. Main statement: all three
are read as the same call, of the same arguments.
-/

namespace BasicSketch

open Token Text

/-! Lists of arguments. -/

namespace Token

/-- The tokens of these texts, with a comma between each two. -/
inductive Lists : List String → List Token → Prop
  | last {a : String} {ts : List Token} (stands : Stands a ts) : Lists [a] ts
  | more {a : String} {args : List String} {ts us : List Token} {comma : Token}
    (stands : Stands a ts) (isComma : comma.kind = .symbol .comma) (behind : Lists args us) :
    Lists (a :: args) (ts ++ comma :: us)

/-- Arguments as a line has them. -/
def argumentList (args : List String) : String := ", ".intercalate args

/-- A text that can be an argument of a call. -/
structure Argument (text : String) : Prop extends Standalone text where
  single : TopFree (fun kind => kind == .symbol .comma || kind == .symbol .equals) (ofLine text)

instance (text : String) : Decidable (Argument text) :=
  decidable_of_iff (Standalone text ∧
    TopFree (fun kind => kind == .symbol .comma || kind == .symbol .equals) (ofLine text))
    ⟨fun ⟨alone, single⟩ => ⟨alone, single⟩, fun argument => ⟨argument.1, argument.2⟩⟩

/-- The tokens are one group in parentheses. -/
def IsGroup (ts : List Token) : Prop :=
  ∃ paren inside close, ts = paren :: (inside ++ [close]) ∧ paren.kind = .symbol .leftParen ∧
    Balanced inside ∧ close.nesting = .closes

variable {args : List String} {ts us : List Token} {a : String}

theorem lays_list (full : args ≠ []) (alone : ∀ a ∈ args, Argument a) {gap rest : List Char}
    {P : List Token → Prop} (white : ∀ c ∈ gap, isGap c = true)
    (stops : ∀ c ∈ rest.head?, c ∈ breaks) (following : Lays rest P) :
    Lays (gap ++ ((argumentList args).toList ++ rest)) fun ts =>
      ∃ us vs, ts = us ++ vs ∧ Lists args us ∧ P vs := by
  induction args generalizing gap with
  | nil => exact absurd rfl full
  | cons a args ih =>
    obtain ⟨first, others⟩ := List.forall_mem_cons.1 alone
    cases args with
    | nil =>
      rw [argumentList, String.intercalate_singleton]
      intro start
      obtain ⟨_, laid, us, vs, rfl, stands, holds⟩ :=
        Lays.piece first.whole white stops following start
      exact ⟨_, laid, us, vs, rfl, .last stands, holds⟩
    | cons b args =>
      have whole : Whole "," := by decide +kernel
      have behind := ih (by simp) others isGap_blank
      have fromComma := Lays.piece whole isGap_none (breaks_blank _) behind
      have all := Lays.piece first.whole white (by simp [breaks]) fromComma
      have chars : (argumentList (a :: b :: args)).toList ++ rest = a.toList ++ ([] ++
          (",".toList ++ ([' '] ++ ((argumentList (b :: args)).toList ++ rest)))) := by
        simp [argumentList, String.intercalate_cons_cons]
      rw [chars]
      intro start
      obtain ⟨_, laid, us, _, rfl, stands, _, _, rfl, isComma, vs, ws, rfl, lists, holds⟩ :=
        all start
      obtain ⟨comma, rfl, isComma, -⟩ := isComma.single
        (show (ofLine ",").map Token.kind = [.symbol .comma] by decide +kernel)
      exact ⟨_, laid, us ++ comma :: vs, ws, by simp, .more stands isComma lists, holds⟩

namespace Argument

theorem balanced_tokens (argument : Argument a) (stands : Stands a ts) : Balanced ts :=
  (balanced_congr stands.kinds).2 argument.balanced

theorem ne_nil (argument : Argument a) (stands : Stands a ts) : ts ≠ [] := by
  rintro rfl
  exact argument.full stands.slice.symm

theorem no_comma (argument : Argument a) (stands : Stands a ts) :
    TopFree (· == .symbol .comma) ts := by
  intro before t after eq balanced
  exact (Bool.or_eq_false_iff.1 (argument.single.congr stands.kinds before t after eq balanced)).1

theorem no_equals (argument : Argument a) (stands : Stands a ts) :
    TopFree (· == .symbol .equals) ts := by
  intro before t after eq balanced
  exact (Bool.or_eq_false_iff.1 (argument.single.congr stands.kinds before t after eq balanced)).2

theorem read (argument : Argument a) (stands : Stands a ts) (column : Nat) :
    Token.argument (ts, column) = .ok ⟨a⟩ := by
  obtain ⟨t, ts, rfl⟩ := List.exists_cons_of_ne_nil (argument.ne_nil stands)
  rw [Token.argument, Expr.ofText, stands.slice, argument.tight]
  simp

end Argument

namespace Lists

theorem ne_nil (lists : Lists args ts) (alone : ∀ a ∈ args, Argument a) : ts ≠ [] := by
  cases lists with
  | last stands => exact (alone _ (by simp)).ne_nil stands
  | more => simp

theorem balanced (lists : Lists args ts) (alone : ∀ a ∈ args, Argument a) : Balanced ts := by
  induction lists with
  | last stands => exact (alone _ (by simp)).balanced_tokens stands
  | @more a args ts us comma stands isComma _ ih =>
    obtain ⟨first, others⟩ := List.forall_mem_cons.1 alone
    have flat : comma.nesting = .flat := by rw [nesting, isComma]
    exact (first.balanced_tokens stands).append ((balanced_cons_flat flat us).2 (ih others))

theorem read (lists : Lists args ts) (alone : ∀ a ∈ args, Argument a) (column : Nat) :
    (splitCommas column 0 ts).mapM argument = .ok (args.map Expr.mk) := by
  induction lists with
  | last stands =>
    have argument := alone _ List.mem_cons_self
    have parts := (argument.no_comma stands).splitAtTop_eq (argument.balanced_tokens stands)
    rw [splitCommas_eq, parts]
    simp [argument.read stands column, bind, Except.bind, pure, Except.pure]
  | @more a args ts us comma stands isComma _ ih =>
    obtain ⟨first, others⟩ := List.forall_mem_cons.1 alone
    have parts := (first.no_comma stands).splitAtTop_append (first.balanced_tokens stands)
      (comma :: us) (by simpa using isComma)
    rw [splitCommas_eq, parts]
    simp [first.read stands, ih others, bind, Except.bind, pure, Except.pure]

theorem no_equals (lists : Lists args ts) (alone : ∀ a ∈ args, Argument a) :
    (splitAtTop (· == .symbol .equals) 0 ts).2 = [] := by
  induction lists with
  | last stands =>
    have argument := alone _ List.mem_cons_self
    rw [(argument.no_equals stands).splitAtTop_eq (argument.balanced_tokens stands)]
  | more stands isComma _ ih =>
    obtain ⟨first, others⟩ := List.forall_mem_cons.1 alone
    have free := first.no_equals stands
    unfold TopFree Balanced at free
    rw [splitAtTop_append_of_free (first.balanced_tokens stands) free]
    simp [splitAtTop, isComma, depthAfter, nesting, ih others]

theorem arguments (lists : Lists args ts) (alone : ∀ a ∈ args, Argument a) (column : Nat) :
    Token.arguments column ts = .ok (args.map Expr.mk) := by
  rw [Token.arguments, if_neg (by simpa using lists.ne_nil alone),
    check_of_balanced (lists.balanced alone)]
  exact lists.read alone column

end Lists

theorem IsGroup.congr (group : IsGroup ts) (kinds : us.map Token.kind = ts.map Token.kind) :
    IsGroup us := by
  obtain ⟨paren, inside, close, rfl, isParen, balanced, closes⟩ := group
  obtain ⟨paren', rest, rfl, parens, behind⟩ := List.map_eq_cons_iff.1 kinds
  obtain ⟨inside', last, rfl, insides, closing⟩ :=
    List.map_eq_append_iff.1 (behind.trans List.map_append)
  obtain ⟨close', rfl, closes'⟩ := List.map_eq_singleton_iff.1 closing
  refine ⟨paren', inside', close', rfl, parens.trans isParen,
    (balanced_congr insides).2 balanced, ?_⟩
  rw [nesting, closes'] at *
  exact closes

/-- Of balanced tokens the first bracket is closed. -/
theorem exists_group {t : Token} (balanced : Balanced (t :: ts)) (opens : t.nesting = .opens) :
    ∃ inside close rest, ts = inside ++ close :: rest ∧ Balanced inside ∧
      close.nesting = .closes := by
  rw [Balanced, List.map_cons, opens, depth?] at balanced
  obtain ⟨inside, close, rest, found⟩ := exists_closeGroup? balanced
  obtain ⟨within, closes⟩ := depth?_of_closeGroup? found
  exact ⟨inside, close, rest, (closeGroup?_append found).symm, within, closes⟩

/-- A group that the arguments begin with is not all of them. -/
theorem Lists.exceeds_group (lists : Lists args ts) (alone : ∀ a ∈ args, Argument a)
    (open_ : ∀ a, args = [a] → ¬IsGroup (ofLine a)) {paren : Token} {more : List Token}
    (begins : ts = paren :: more) (isParen : paren.kind = .symbol .leftParen) :
    ∃ inside close next rest, closeGroup? 0 more = some (inside, close, next :: rest) := by
  have opens : paren.nesting = .opens := by rw [nesting, isParen]
  cases lists with
  | @last a _ stands =>
    have balanced := (alone a List.mem_cons_self).balanced_tokens stands
    subst begins
    obtain ⟨inside, close, rest, rfl, within, closes⟩ := exists_group balanced opens
    cases rest with
    | nil =>
      have group : IsGroup (paren :: (inside ++ [close])) :=
        ⟨paren, inside, close, rfl, isParen, within, closes⟩
      exact absurd (group.congr stands.kinds.symm) (open_ a rfl)
    | cons next rest => exact ⟨inside, close, next, rest, closeGroup?_of_balanced within closes _⟩
  | @more a _ us vs comma stands =>
    have first := alone a List.mem_cons_self
    have balanced := first.balanced_tokens stands
    obtain ⟨t, us, rfl⟩ := List.exists_cons_of_ne_nil (first.ne_nil stands)
    rw [List.cons_append] at begins
    obtain ⟨rfl, rfl⟩ := List.cons.inj begins
    obtain ⟨inside, close, rest, rfl, within, closes⟩ := exists_group balanced opens
    -- the comma comes behind the group
    obtain ⟨next, behind, eq⟩ := List.exists_cons_of_ne_nil
      (show rest ++ comma :: vs ≠ [] by simp)
    refine ⟨inside, close, next, behind, ?_⟩
    rw [List.append_assoc, List.cons_append, eq]
    exact closeGroup?_of_balanced within closes _

/-- The first token of the arguments is of the kind that the first argument begins with. -/
theorem Lists.starts (lists : Lists (a :: args) ts) (argument : Argument a) :
    ∃ t more u, ts = t :: more ∧ u ∈ (ofLine a).head? ∧ t.kind = u.kind := by
  have first {us : List Token} (stands : Stands a us) :
      ∃ t more u, us = t :: more ∧ u ∈ (ofLine a).head? ∧ t.kind = u.kind := by
    obtain ⟨t, more, rfl⟩ := List.exists_cons_of_ne_nil (argument.ne_nil stands)
    obtain ⟨u, _, line, same, -⟩ := List.map_eq_cons_iff.1 stands.kinds.symm
    exact ⟨t, more, u, rfl, by simp [line], same.symm⟩
  cases lists with
  | last stands => exact first stands
  | more stands =>
    obtain ⟨t, more, u, rfl, begins, same⟩ := first stands
    exact ⟨t, _, u, rfl, begins, same⟩

theorem Lists.callArguments (lists : Lists args ts) (alone : ∀ a ∈ args, Argument a)
    (open_ : ∀ a, args = [a] → ¬IsGroup (ofLine a)) :
    Token.callArguments ts = .ok (args.map Expr.mk) := by
  have read := lists.arguments alone
  obtain ⟨t, more, eq⟩ := List.exists_cons_of_ne_nil (lists.ne_nil alone)
  by_cases paren : t.kind = .symbol .leftParen
  · obtain ⟨inside, close, next, rest, found⟩ := lists.exceeds_group alone open_ eq paren
    rw [eq] at read ⊢
    rw [Token.callArguments, if_pos (by simp [paren]), found]
    exact read _
  · rw [eq] at read ⊢
    rw [Token.callArguments, if_neg (by simpa using paren)]
    exact read _

theorem Lists.callArguments_group (lists : Lists args ts) (alone : ∀ a ∈ args, Argument a)
    {paren close : Token} (opens : paren.kind = .symbol .leftParen)
    (closes : close.nesting = .closes) :
    Token.callArguments (paren :: (ts ++ [close])) = .ok (args.map Expr.mk) := by
  rw [Token.callArguments, if_pos (by simp [opens]),
    closeGroup?_of_balanced (lists.balanced alone) closes]
  exact lists.arguments alone _

end Token

/-! Lines. -/

/-- The word begins a line of its own kind, or is the name of a command. -/
def isFixedWord (word : String) : Bool :=
  ["option", "global", "every", "inputbox", "msgbox", "on", "resume", "property", "declare",
    "redim", "erase", "randomize", "doevents"].contains word ||
    (BoardFunction.ofName? word).isSome || (DrawCommand.ofName? word).isSome ||
    (SpriteCommand.ofName? word).isSome

namespace Phrase

open Reader

variable {first t : Token} {ts : List Token} {es : List Expr}

theorem isMember_of_startsArgument (starts : startsArgument t.kind = true) :
    t.kind.isMember = false := by
  unfold startsArgument at starts
  unfold TokenKind.isMember
  split at starts <;> split <;> simp_all

theorem run_call (word : first.isWord = true) (starts : startsArgument t.kind = true)
    (read : Token.callArguments (t :: ts) = .ok es) :
    call.run (first :: t :: ts) = .ok (.call first.text es, []) := by
  have members : splitMembers (t :: ts) = ([], t :: ts) := by
    cases ts <;> simp [splitMembers, isMember_of_startsArgument starts]
  have taken : Phrase.members.run (t :: ts) = .ok ([], t :: ts) := by
    simp [Reader.run, Phrase.members, members]
  have listed : Reader.callArguments.run (t :: ts) = .ok (es, []) := by
    simp [Reader.run, Reader.callArguments, read]
  have next : nextKind.run (t :: ts) = .ok (some t.kind, t :: ts) := rfl
  have alone : Token.slice [first] = first.text := String.append_empty
  rw [call, run_bind, run_take, if_pos word]
  dsimp only
  rw [run_bind, taken]
  dsimp only
  rw [run_bind, next]
  simp [starts, listed, alone]

end Phrase

namespace LineForm

open Phrase

variable {text : String} {first t : Token} {ts : List Token} {es : List Expr}

theorem ofCommand_call (word : first.isWord = true) (free : isFixedWord (lower first.text) = false)
    (starts : startsArgument t.kind = true)
    (unassigned : (splitAtTop (· == .symbol .equals) 0 (first :: t :: ts)).2 = [])
    (read : Token.callArguments (t :: ts) = .ok es) :
    ofCommand first (t :: ts) = .ok (.action (.call first.text es)) := by
  simp only [isFixedWord, Bool.or_eq_false_iff, Option.isSome_eq_false_iff,
    Option.isNone_iff_eq_none] at free
  obtain ⟨⟨⟨-, board⟩, draw⟩, sprite⟩ := free
  have unknown : ofCommand.command? first (lower first.text) = none := by
    rw [ofCommand.command?, board, draw, sprite]
    rfl
  have noTarget : assignment? (first :: t :: ts) = none := by
    rw [assignment?]
    split
    · rfl
    · simp_all
  have called := run_call word starts read
  rw [ofCommand.eq_def]
  simp [unknown, noTarget, ofReader, Reader.value, called, Except.map]

theorem ofIdentifier_call (isName : first.kind = .identifier)
    (free : isFixedWord (lower first.text) = false) (starts : startsArgument t.kind = true)
    (unassigned : (splitAtTop (· == .symbol .equals) 0 (first :: t :: ts)).2 = [])
    (read : Token.callArguments (t :: ts) = .ok es) :
    ofIdentifier text first (t :: ts) = .ok (.action (.call first.text es)) := by
  have word : first.isWord = true := by simp [isWord, isName, TokenKind.isWord]
  have command := ofCommand_call word free starts unassigned read
  have noLabel : (t.kind == .symbol .colon) = false := by
    unfold startsArgument at starts
    split at starts <;> simp_all
  simp only [isFixedWord, Bool.or_eq_false_iff, List.contains_eq_mem, List.mem_cons,
    List.not_mem_nil, decide_eq_false_iff_not, not_or, or_false] at free
  unfold ofIdentifier
  simp [noLabel, free, command]

end LineForm

section Line

variable {foo : String} {args : List String} {ts : List Token}

/-- The tokens of a name and of arguments behind it in parentheses. -/
def Groups (foo : String) (args : List String) (ts : List Token) : Prop :=
  ∃ name paren us close, ts = name :: paren :: (us ++ [close]) ∧ name.kind = .identifier ∧
    name.text = foo ∧ paren.kind = .symbol .leftParen ∧ Lists args us ∧ close.nesting = .closes

theorem lays_group (name : IsIdentifier foo) (full : args ≠ []) (alone : ∀ a ∈ args, Argument a)
    {gap : List Char} (white : ∀ c ∈ gap, isGap c = true) :
    Lays (gap ++ s!"{foo}({argumentList args})".toList) (Groups foo args) := by
  have whole : Whole ")" := by decide +kernel
  have fromClose := Lays.piece whole isGap_none (by simp) lays_end
  have fromList := lays_list full alone isGap_none (by simp [breaks]) fromClose
  have all := Lays.piece name.whole white (by simp [breaks]) fromList.leftParen
  have chars : s!"{foo}({argumentList args})".toList = foo.toList ++ '(' :: ([] ++
      ((argumentList args).toList ++ ([] ++ (")".toList ++ [])))) := by
    simp
  rw [chars]
  intro start
  obtain ⟨_, laid, _, _, rfl, isName, paren, _, rfl, opens, us, _, rfl, lists, _, _, rfl, isClose,
    rfl⟩ := all start
  obtain ⟨word, rfl, isName, text⟩ := isName.single name.kinds
  obtain ⟨close, rfl, isClose, -⟩ := isClose.single
    (show (ofLine ")").map Token.kind = [.symbol .rightParen] by decide +kernel)
  refine ⟨_, laid, word, paren, us, close, by simp, isName, text, opens, lists, ?_⟩
  rw [nesting, isClose]

/-- The tokens of a name and of arguments behind it as they are. -/
theorem lays_bare (name : IsIdentifier foo) (full : args ≠ []) (alone : ∀ a ∈ args, Argument a) :
    Lays s!"{foo} {argumentList args}".toList fun ts =>
      ∃ name us, ts = name :: us ∧ name.kind = .identifier ∧ name.text = foo ∧ Lists args us := by
  have fromList := lays_list full alone isGap_blank (by simp) lays_end
  have all := Lays.piece name.whole isGap_none (breaks_blank _) fromList
  have chars : s!"{foo} {argumentList args}".toList =
      [] ++ (foo.toList ++ ([' '] ++ ((argumentList args).toList ++ []))) := by
    simp
  rw [chars]
  intro start
  obtain ⟨_, laid, _, _, rfl, isName, us, _, rfl, lists, rfl⟩ := all start
  obtain ⟨word, rfl, isName, text⟩ := isName.single name.kinds
  exact ⟨_, laid, word, us, by simp, isName, text, lists⟩

theorem ofText_call {text : String} {first t : Token} (line : ofLine text = first :: t :: ts)
    (isName : first.kind = .identifier) (free : isFixedWord (lower first.text) = false)
    (starts : Phrase.startsArgument t.kind = true)
    (unassigned : (splitAtTop (· == .symbol .equals) 0 (t :: ts)).2 = []) {es : List Expr}
    (read : Token.callArguments (t :: ts) = .ok es) :
    LineForm.ofText text = .action (.call first.text es) := by
  have absent : (splitAtTop (· == .symbol .equals) 0 (first :: t :: ts)).2 = [] := by
    rw [splitAtTop]
    simp [isName, depthAfter, nesting, unassigned]
  rw [LineForm.ofText_other line (by simp [isName])]
  simp [LineForm.ofTokens, isName, LineForm.ofIdentifier_call isName free starts absent read]

theorem ofText_group {text : String} (groups : Groups foo args (ofLine text))
    (free : isFixedWord (lower foo) = false) (alone : ∀ a ∈ args, Argument a) :
    LineForm.ofText text = .action (.call foo (args.map Expr.mk)) := by
  obtain ⟨name, paren, us, close, line, isName, rfl, opens, lists, closes⟩ := groups
  have starts : Phrase.startsArgument paren.kind = true := by rw [opens]; rfl
  refine ofText_call line isName free starts ?_ (lists.callArguments_group alone opens closes)
  -- all that stands behind the name is inside of the parentheses
  have within := splitAtTop_inside (· == .symbol .equals) (lists.balanced alone) [close]
  simp only [splitAtTop, opens, depthAfter, nesting]
  simp [within, splitAtTop]

theorem ofText_callWord {text : String} {word : Token} (line : ofLine text = word :: ts)
    (isCall : word.kind = .keyword .Call) (groups : Groups foo args ts)
    (alone : ∀ a ∈ args, Argument a) :
    LineForm.ofText text = .action (.call foo (args.map Expr.mk)) := by
  obtain ⟨name, paren, us, close, rfl, isName, rfl, opens, lists, closes⟩ := groups
  have starts : Phrase.startsArgument paren.kind = true := by rw [opens]; rfl
  have word : name.isWord = true := by simp [isWord, isName, TokenKind.isWord]
  have called := Phrase.run_call word starts (lists.callArguments_group alone opens closes)
  rw [LineForm.ofText_other line (by simp [isCall])]
  simp [LineForm.ofTokens, isCall, LineForm.ofKeyword, LineForm.ofReader, Reader.value, called,
    Except.map]

end Line

/-- The three forms of a call are one call. -/
theorem call_forms_agree {foo : String} (name : IsIdentifier foo)
    (free : isFixedWord (lower foo) = false) {args : List String} (full : args ≠ [])
    (alone : ∀ a ∈ args, Argument a) {r : Reading} (outside : r.body = none) (n : Nat) :
    (r.lineStatement ⟨n, s!"{foo}({argumentList args})"⟩).1.1 =
        .plain n (.call foo (args.map Expr.mk)) ∧
      (r.lineStatement ⟨n, s!"Call {foo}({argumentList args})"⟩).1.1 =
        .plain n (.call foo (args.map Expr.mk)) ∧
      ((∀ t ∈ (ofLine (args.head full)).head?, Phrase.startsArgument t.kind = true) →
        (∀ a, args = [a] → ¬IsGroup (ofLine a)) →
        (r.lineStatement ⟨n, s!"{foo} {argumentList args}"⟩).1.1 =
          .plain n (.call foo (args.map Expr.mk))) := by
  have read {text : String} (form : LineForm.ofText text = .action (.call foo (args.map Expr.mk))) :
      (r.lineStatement ⟨n, text⟩).1.1 = .plain n (.call foo (args.map Expr.mk)) := by
    rw [Reading.lineStatement_opens (.free outside), form, Reading.statement_action]
  refine ⟨read ?_, read ?_, fun starts open_ => read ?_⟩
  · exact ofText_group (lays_group name full alone isGap_none).tokens free alone
  · have whole : Whole "Call" := by decide +kernel
    have all := Lays.piece whole isGap_none (by simp [breaks])
      (lays_group name full alone isGap_blank)
    have chars : s!"Call {foo}({argumentList args})".toList =
        [] ++ ("Call".toList ++ ([' '] ++ s!"{foo}({argumentList args})".toList)) := by
      simp
    rw [← chars] at all
    obtain ⟨_, ts, line, isCall, groups⟩ := all.tokens
    obtain ⟨word, rfl, isCall, -⟩ := isCall.single
      (show (ofLine "Call").map Token.kind = [.keyword .Call] by decide +kernel)
    exact ofText_callWord line isCall groups alone
  · obtain ⟨word, us, line, isName, rfl, lists⟩ := (lays_bare name full alone).tokens
    obtain ⟨a, args, rfl⟩ := List.exists_cons_of_ne_nil full
    obtain ⟨t, more, u, rfl, begins, same⟩ := lists.starts (alone a List.mem_cons_self)
    exact ofText_call line isName free (same ▸ starts u begins) (lists.no_equals alone)
      (lists.callArguments alone open_)

/-- Arguments with a comma and an equals sign in brackets and in quotes, and a group first. -/
theorem call_forms_agree_nested :
    let foo := "Show"
    let args := ["(a = 1) + f(b, c)", "\x22x, = y\x22", "m[1, 2]"]
    (IsIdentifier foo ∧ isFixedWord (lower foo) = false ∧ ∀ a ∈ args, Argument a) ∧
    ((Reading.ofLines []).lineStatement ⟨7, s!"{foo}({argumentList args})"⟩).1.1 =
      .plain 7 (.call foo (args.map Expr.mk)) ∧
    ((Reading.ofLines []).lineStatement ⟨7, s!"Call {foo}({argumentList args})"⟩).1.1 =
      .plain 7 (.call foo (args.map Expr.mk)) ∧
    ((Reading.ofLines []).lineStatement ⟨7, s!"{foo} {argumentList args}"⟩).1.1 =
      .plain 7 (.call foo (args.map Expr.mk)) := by
  intro foo args
  have fits : IsIdentifier foo ∧ isFixedWord (lower foo) = false ∧ ∀ a ∈ args, Argument a := by
    decide +kernel
  have agree := @call_forms_agree foo fits.1 fits.2.1 args (by simp [args]) fits.2.2
    (.ofLines []) rfl 7
  refine ⟨fits, agree.1, agree.2.1, agree.2.2 ?_ ?_⟩
  · decide +kernel
  · simp [args]

end BasicSketch
