import BasicSketch.Proofs.CaselessPhrases

set_option autoImplicit false

/-! What a line without a single-line `If` is read as. -/

namespace BasicSketch

namespace Token

theorem depth?_append (depth : Nat) (ns more : List Nesting) :
    depth? depth (ns ++ more) = (depth? depth ns).bind fun reached => depth? reached more := by
  induction ns generalizing depth with
  | nil => rfl
  | cons n ns ih => cases n <;> cases depth <;> simp [depth?, ih]

variable {depth : Nat} {ts : List Token} {t : Token}

theorem depth?_raised {reached : Nat} {ns : List Nesting}
    (within : depth? depth ns = some reached) : depth? (depth + 1) ns = some (reached + 1) := by
  induction ns generalizing depth with
  | nil => simpa [depth?] using within
  | cons n ns ih => cases n <;> cases depth <;> simp_all [depth?]

theorem Balanced.append {us : List Token} (first : Balanced ts) (second : Balanced us) :
    Balanced (ts ++ us) := by
  rw [Balanced, List.map_append, depth?_append, show depth? 0 (ts.map nesting) = some 0 from first]
  exact second

theorem balanced_cons_flat (flat : t.nesting = .flat) (ts : List Token) :
    Balanced (t :: ts) ↔ Balanced ts := by
  rw [Balanced, List.map_cons, flat, depth?, Balanced]

theorem balanced_of_flat (flat : ∀ t ∈ ts, t.nesting = .flat) : Balanced ts := by
  induction ts with
  | nil => rfl
  | cons t ts ih =>
    obtain ⟨here, later⟩ := List.forall_mem_cons.1 flat
    exact (balanced_cons_flat here ts).2 (ih later)

variable {close : Token} {inside rest : List Token} {es : List Expr} {stop : TokenKind → Bool}

theorem depth?_of_closeGroup? (found : closeGroup? depth ts = some (inside, close, rest)) :
    depth? depth (inside.map nesting) = some 0 ∧ close.nesting = .closes := by
  induction ts generalizing depth inside with
  | nil => simp [closeGroup?] at found
  | cons t more ih =>
    simp only [closeGroup?] at found
    split at found
    · rename_i closes
      obtain ⟨rfl, rfl, rfl⟩ : [] = inside ∧ t = close ∧ more = rest := by simpa using found
      exact ⟨rfl, closes⟩
    · rename_i deeper
      obtain ⟨⟨within, close', rest'⟩, eq, same⟩ := Option.map_eq_some_iff.1 found
      obtain ⟨rfl, rfl, rfl⟩ : t :: within = inside ∧ close' = close ∧ rest' = rest := by
        simpa using same
      obtain ⟨reached, closes⟩ := ih eq
      refine ⟨?_, closes⟩
      rw [List.map_cons, depth?_cons]
      exact ⟨fun closing top => deeper closing top, reached⟩

theorem balanced_group (opens : t.nesting = .opens) (within : Balanced inside)
    (closes : close.nesting = .closes) (after : Balanced rest) :
    Balanced (t :: (inside ++ close :: rest)) := by
  rw [Balanced, List.map_cons, opens, depth?, List.map_append, depth?_append,
    depth?_raised within, List.map_cons, closes]
  exact after

theorem unbalancedAt?_of_depth? {opened : List Nat} {ts : List Token}
    (balanced : depth? opened.length (ts.map nesting) = some 0) :
    unbalancedAt? opened ts = none := by
  induction ts generalizing opened with
  | nil =>
    have empty : opened.length = 0 := Option.some.inj balanced
    rw [unbalancedAt?, List.eq_nil_of_length_eq_zero empty]
    rfl
  | cons t ts ih =>
    rw [List.map_cons] at balanced
    unfold unbalancedAt?
    split
    · rename_i opens
      rw [opens, depth?] at balanced
      exact ih balanced
    · rename_i closes
      rw [closes] at balanced
      cases balanced
    · rename_i closes
      rw [closes] at balanced
      exact ih balanced
    · rename_i flat
      rw [flat, depth?] at balanced
      exact ih balanced

theorem check_of_balanced (balanced : Balanced ts) : checkBalanced ts = .ok () := by
  rw [checkBalanced, @unbalancedAt?_of_depth? [] ts balanced]

theorem balanced_of_arguments {column : Nat} (read : arguments column ts = .ok es) :
    Balanced ts := by
  unfold arguments at read
  split at read
  · rename_i empty
    rw [List.isEmpty_iff.1 empty]
    rfl
  · cases checked : checkBalanced ts with
    | error e => simp [checked, bind, Except.bind] at read
    | ok _ => exact balanced_of_check checked

theorem balanced_of_callArguments (read : callArguments ts = .ok es) : Balanced ts := by
  unfold callArguments at read
  split at read
  · rfl
  · rename_i t more
    split at read
    · rename_i paren
      split at read
      · simp at read
      · rename_i inside close found
        have opens : t.nesting = .opens := by rw [nesting, eq_of_beq paren]
        rw [← closeGroup?_append found]
        exact balanced_group opens (balanced_of_arguments read) (depth?_of_closeGroup? found).2 rfl
      · exact balanced_of_arguments read
    · exact balanced_of_arguments read

theorem nesting_of_isWord (word : t.isWord = true) : t.nesting = .flat := by
  have kind : t.kind.isWord = true := word
  rw [nesting]
  split <;> rename_i same <;> simp_all [TokenKind.isWord]

theorem nesting_of_isPath (path : t.IsPath) : t.nesting = .flat := by
  rcases path with word | member
  · exact nesting_of_isWord word
  · rw [nesting]
    split <;> rename_i same <;> simp_all [TokenKind.isMember]

theorem splitAtTop_of_free (free : ∀ t ∈ ts, stop t.kind = false) (depth : Nat) :
    splitAtTop stop depth ts = (ts, []) := by
  induction ts generalizing depth with
  | nil => rfl
  | cons t ts ih =>
    obtain ⟨here, later⟩ := List.forall_mem_cons.1 free
    simp [splitAtTop, here, ih later]

theorem splitAtTop_found {before after : List Token}
    (balanced : depth? depth (before.map nesting) = some 0)
    (free : ∀ u ∈ before, stop u.kind = false) (stops : stop t.kind = true) :
    splitAtTop stop depth (before ++ t :: after) = (before, t :: after) := by
  induction before generalizing depth with
  | nil =>
    obtain rfl : depth = 0 := Option.some.inj balanced
    simp [splitAtTop, stops]
  | cons u before ih =>
    obtain ⟨here, later⟩ := List.forall_mem_cons.1 free
    rw [List.map_cons, depth?_cons] at balanced
    simp [splitAtTop, here, ih balanced.2 later]

end Token

namespace Phrase

open Reader Token

variable {ts : List Token}

theorem balanced_of_isPlace (place : isPlace ts = true) : Balanced ts := by
  fun_induction isPlace ts with
  | case1 => rfl
  | case2 => simp at place
  | case3 t isMember member after ih =>
    obtain ⟨word, rest⟩ := Bool.and_eq_true_iff.1 place
    rw [balanced_cons_flat (nesting_of_isPath (.inr isMember)),
      balanced_cons_flat (nesting_of_isWord word)]
    exact ih rest
  | case4 => simp at place
  | case5 t rest other bracket inside close after found ih =>
    have opens : t.nesting = .opens := by
      rcases Bool.or_eq_true_iff.1 bracket with same | same <;> rw [nesting, eq_of_beq same]
    obtain ⟨within, closes⟩ := depth?_of_closeGroup? found
    rw [← closeGroup?_append found]
    exact balanced_group opens within closes (ih place)
  | case6 => simp at place

theorem balanced_of_isTarget (target : isTarget ts = true) : Balanced ts := by
  cases ts with
  | nil => rfl
  | cons t rest =>
    obtain ⟨word, place⟩ := Bool.and_eq_true_iff.1 target
    exact (balanced_cons_flat (nesting_of_isWord word) rest).2 (balanced_of_isPlace place)

theorem balanced_of_restExpr {expected : String} {e : Expr}
    (read : (restExpr expected).value ts = .ok e) : Balanced ts := by
  rw [Reader.value, restExpr, run_exprUntil, splitAtTop_of_free (by simp)] at read
  split at read
  · simp [Except.map] at read
  · split at read
    · simp [Except.map] at read
    · rename_i checked
      exact balanced_of_check checked

theorem balanced_of_assignment? {a : Action} (read : assignment? ts = some (.ok a)) :
    Balanced ts := by
  have both := splitAtTop_append (· == .symbol .equals) 0 ts
  unfold assignment? at read
  split at read
  · simp at read
  · rename_i target sign rest parts
    rw [parts] at both
    have equals : (sign.kind == .symbol .equals) = true := stop_of_splitAtTop parts
    have flat : sign.nesting = .flat := by rw [nesting, eq_of_beq equals]
    split at read
    · rename_i isTarget
      cases found : (restExpr "value").value rest with
      | error e => simp [found, Except.map] at read
      | ok value =>
        rw [← both]
        exact (balanced_of_isTarget isTarget).append
          ((balanced_cons_flat flat rest).2 (balanced_of_restExpr found))
    · simp at read

def Even {α : Type} (x : Reader α) : Prop :=
  ∀ ts a rest, x.run ts = .ok (a, rest) → Balanced ts

def Passes {α : Type} (x : Reader α) : Prop :=
  ∀ ts a rest, x.run ts = .ok (a, rest) → ∃ taken, ts = taken ++ rest ∧ Balanced taken

section Even

variable {α β : Type}

theorem even_first {x : Reader α} (even : Even x) (f : α → Reader β) : Even (x >>= f) := by
  intro ts b rest read
  rw [run_bind] at read
  cases first : x.run ts with
  | error e => simp [first] at read
  | ok r => exact even ts r.1 r.2 first

theorem even_then {x : Reader α} {f : α → Reader β} (passes : Passes x)
    (even : ∀ a, Even (f a)) : Even (x >>= f) := by
  intro ts b rest read
  rw [run_bind] at read
  cases first : x.run ts with
  | error e => simp [first] at read
  | ok r =>
    simp only [first] at read
    obtain ⟨taken, rfl, balanced⟩ := passes ts r.1 r.2 first
    exact balanced.append (even r.1 r.2 b rest read)

theorem even_callArguments : Even callArguments := by
  intro ts es rest read
  simp only [Reader.run, Reader.callArguments] at read
  cases found : Token.callArguments ts with
  | error e => simp [found] at read
  | ok es => exact balanced_of_callArguments found

theorem passes_nextKind : Passes nextKind := by
  intro ts kind rest read
  have looked : nextKind.run ts = .ok (ts.head?.map Token.kind, ts) := rfl
  obtain ⟨-, rfl⟩ := Prod.mk.inj (Except.ok.inj (looked.symm.trans read))
  exact ⟨[], rfl, rfl⟩

theorem passes_word (expected : String) : Passes (take Token.isWord expected) := by
  intro ts t rest read
  cases ts with
  | nil => simp [Reader.run, Reader.take] at read
  | cons u more =>
    simp only [Reader.run, Reader.take] at read
    by_cases word : u.isWord = true
    · obtain ⟨-, rfl⟩ : u = t ∧ more = rest := by simpa [word] using read
      exact ⟨[u], rfl, (balanced_cons_flat (nesting_of_isWord word) []).2 rfl⟩
    · simp [word] at read

theorem passes_members : Passes members := by
  intro ts found rest read
  have parts : splitMembers ts = (found, rest) := by simpa [Reader.run, members] using read
  have both := splitMembers_append ts
  rw [parts] at both
  refine ⟨found, both.symm, balanced_of_flat fun t mem => ?_⟩
  exact nesting_of_isPath (isPath_of_mem_splitMembers (by rw [parts]; exact mem))

end Even

theorem even_call : Even call := by
  have ending (name : String) :
      Even (do return Action.call name (← callArguments)) := even_first even_callArguments _
  refine even_then (passes_word _) fun first => even_then passes_members fun members => ?_
  refine even_then passes_nextKind fun next => ?_
  split
  · split
    · exact ending _
    · exact even_first (fun ts a rest read => by simp [Reader.run, failHere] at read) _
  · exact ending _

end Phrase

namespace LineForm

open Phrase
open Token (ofLine Balanced)

def From : String → LineForm → Prop
  | line, .action a => a.From line
  | line, .malformed text _ => (Action.malformedHeader text).From line
  | line, .untranslated text _ => text = line
  | line, .every interval => interval.From line
  | line, .inlineIf c f =>
    c.From line ∧ ∃ ts, ts ⊆ Token.ofLine line ∧ From (branchText ts) f
  | line, .inlineIfElse c f g =>
    c.From line ∧ (∃ ts, ts ⊆ Token.ofLine line ∧ From (branchText ts) f) ∧
      ∃ ts, ts ⊆ Token.ofLine line ∧ From (branchText ts) g
  | line, .danglingElse text f =>
    text = line ∧ ∃ ts, ts ⊆ Token.ofLine line ∧ From (branchText ts) f

def HeadsHeader (ts : List Token) : Prop :=
  ∃ t rest, ts = t :: rest ∧ t.kind ∈ [Keyword.Sub, .Function, .Public, .Private].map .keyword

def Settled (ts : List Token) : LineForm → Prop
  | .action a => (a.isDeed = true → Balanced ts) ∧ a.isEntry = false ∧
    (a.isHeader = true → HeadsHeader ts)
  | .malformed .. | .every _ => True
  | _ => False

inductive Alike : LineForm → LineForm → Prop where
  | action {a a' : Action} (same : UpTo Action.lower a a') : Alike (.action a) (.action a')
  | malformed {text text' : String} (same : UpTo Text.lower text text') (e e' : LineError) :
    Alike (.malformed text e) (.malformed text' e')
  | untranslated {text text' : String} (same : UpTo Text.lower text text') (e e' : LineError) :
    Alike (.untranslated text e) (.untranslated text' e')
  | every {interval interval' : Expr} (same : UpTo Expr.lower interval interval') :
    Alike (.every interval) (.every interval')
  | inlineIf {c c' : Expr} {f f' : LineForm} (same : UpTo Expr.lower c c') (branch : Alike f f') :
    Alike (.inlineIf c f) (.inlineIf c' f')
  | inlineIfElse {c c' : Expr} {f f' g g' : LineForm} (same : UpTo Expr.lower c c')
    (branch : Alike f f') (other : Alike g g') :
    Alike (.inlineIfElse c f g) (.inlineIfElse c' f' g')
  | danglingElse {text text' : String} {f f' : LineForm} (same : UpTo Text.lower text text')
    (branch : Alike f f') : Alike (.danglingElse text f) (.danglingElse text' f')

def delays : LineForm → List Expr
  | .action a => a.delays
  | .inlineIf _ f => f.delays
  | .inlineIfElse _ f g => f.delays ++ g.delays
  | .malformed _ _ | .untranslated _ _ | .every _ | .danglingElse _ _ => []

/-- A delay is written as a command with its argument behind it. -/
def Delayed (ts : List Token) (f : LineForm) : Prop :=
  f.delays = [] ∨ ∃ first rest e, ts = first :: rest ∧ f.delays = [e] ∧
    first.isNamed "delay" = true ∧ Token.callArguments rest = .ok [e]

/-- What is known of the forms of a line and of the line in lower case. -/
structure Known (line : String) (ts : List Token) (f f' : LineForm) : Prop where
  origin : f.From line
  settled : f.Settled ts
  alike : Alike f f'
  delayed : f.Delayed ts

variable {line line' : String} {ts taken rest : List Token} {first : Token}

variable {x x' : Reader Action}

theorem known_aside {a a' : Action} (found : Twins (Action.Aside line) Action.lower a a') :
    Known line ts (.action a) (.action a') := by
  have plain := found.1.2
  simp only [Bool.or_eq_false_iff] at plain
  refine ⟨found.1.1, ⟨by simp [plain], plain.1.2, by simp [plain]⟩, .action found.2, .inl ?_⟩
  cases a <;> first | rfl | cases plain.1.1

theorem known_deed {a a' : Action} (found : Twins (Action.Deed line) Action.lower a a')
    (balanced : Balanced ts) (delayed : Delayed ts (.action a)) :
    Known line ts (.action a) (.action a') := by
  have deed := found.1.2
  refine ⟨found.1.1, ⟨fun _ => balanced, ?_, fun header => ?_⟩, .action found.2, delayed⟩
  · cases a <;> first | rfl | cases deed
  · cases a <;> cases header
    cases deed

theorem read_other (finds : FindsAside line x x') (inside : taken <:+: ofLine line) :
    Both (Known line ts) (ofReader x taken) (ofReader x' (taken.map Token.lower)) :=
  (finds.value inside).map fun _ _ => known_aside

theorem read_deed {P : Action → Prop} (finds : Reader.Finds line (Twins P Action.lower) x x')
    (even : Even x) (inside : taken <:+: ofLine line) (whole : Balanced taken → Balanced ts)
    (deed : ∀ a rest, x.run taken = .ok (a, rest) → P a → a.Deed line ∧ Delayed ts (.action a)) :
    Both (Known line ts) (ofReader x taken) (ofReader x' (taken.map Token.lower)) := by
  have found := finds taken inside
  unfold ofReader Reader.value
  rcases found.elim with ⟨r, r', read, read', ⟨holds, same⟩, -⟩ | ⟨e, e', read, read'⟩
  · obtain ⟨deed, delayed⟩ := deed r.1 r.2 read holds
    rw [read, read']
    exact .found (known_deed ⟨deed, same⟩ (whole (even taken r.1 r.2 read)) delayed)
  · rw [read, read']
    exact .refused e e'

theorem read_even (finds : FindsErrand line x x') (even : Even x) (inside : taken <:+: ofLine line)
    (whole : Balanced taken → Balanced ts) :
    Both (Known line ts) (ofReader x taken) (ofReader x' (taken.map Token.lower)) :=
  read_deed finds even inside whole fun _ _ _ errand => ⟨errand.1, .inl errand.2⟩

theorem delayed_board {function : BoardFunction} {column : Nat} {a : Action} {left : List Token}
    (isWord : first.isWord = true)
    (named : BoardFunction.ofName? (Text.lower first.text) = some function)
    (read : (board function column).run rest = .ok (a, left)) :
    Delayed (first :: rest) (.action a) := by
  rw [board, Reader.run_bind, Reader.run_callArguments] at read
  cases listed : Token.callArguments rest with
  | error e =>
    rw [listed] at read
    cases read
  | ok es =>
    rw [listed] at read
    dsimp only [Except.map] at read
    split at read
    · cases read
    obtain ⟨rfl, -⟩ := Prod.mk.inj (Except.ok.inj read)
    cases function with
    | delay =>
      match es with
      | [] | _ :: _ :: _ => exact .inl rfl
      | [e] =>
        obtain ⟨_, _, table, -⟩ := List.lookup_eq_some_iff.1 named
        have entry : (Text.lower (Text.lower first.text), .delay) ∈ BoardFunction.spellings := by
          simp [table]
        have key : Text.lower first.text = "delay" := by
          simpa [BoardFunction.spellings, Text.lower_lower] using entry
        refine .inr ⟨first, rest, e, rfl, rfl, ?_, listed⟩
        rw [Token.isNamed, isWord, Text.sameWord, key]
        rfl
    | _ => exact .inl rfl

theorem read_command? (isWord : first.isWord = true) (after : rest <:+: ofLine line)
    (whole : Balanced rest → Balanced (first :: rest))
    (found : ofCommand.command? first (Text.lower first.text) = some x) :
    Both (Known line (first :: rest)) (ofReader x rest) (ofReader x (rest.map Token.lower)) := by
  unfold ofCommand.command? at found
  split at found
  · rename_i named
    obtain rfl := Option.some.inj found
    exact read_deed (finds_board _ _) (even_first even_callArguments _) after whole
      fun _ _ read deed => ⟨deed, delayed_board isWord named read⟩
  · split at found
    · obtain rfl := Option.some.inj found
      exact read_even (finds_draw _ _) (even_first even_callArguments _) after whole
    · obtain ⟨command, -, rfl⟩ := Option.map_eq_some_iff.1 found
      exact read_even (finds_sprite _ _) (even_first even_callArguments _) after whole

def fixed? (first : Token) (rest : List Token) : Option (Reader Action) :=
  match rest with
  | [] => ofCommand.command? first (Text.lower first.text)
  | t :: _ =>
    if t.kind == .symbol .equals || t.kind.isMember then none
    else ofCommand.command? first (Text.lower first.text)

theorem fixed?_lower (first : Token) (rest : List Token) :
    fixed? first.lower (rest.map Token.lower) = fixed? first rest := by
  have command : ofCommand.command? first.lower (Text.lower first.lower.text) =
      ofCommand.command? first (Text.lower first.text) := by
    rw [Token.text_lower, Text.lower_lower, ofCommand.command?, Token.start_lower,
      ofCommand.command?]
  unfold fixed?
  rw [command]
  cases rest <;> rfl

theorem command?_of_fixed? (found : fixed? first rest = some x) :
    ofCommand.command? first (Text.lower first.text) = some x := by
  unfold fixed? at found
  split at found
  · exact found
  · split at found
    · simp at found
    · exact found

theorem known_assignment? (inside : taken <:+: ofLine line)
    (whole : Balanced taken → Balanced ts) :
    Option.Rel (Both fun a a' => Known line ts (.action a) (.action a')) (assignment? taken)
      (assignment? (taken.map Token.lower)) := by
  have found := finds_assignment? inside
  have balanced := fun a => @balanced_of_assignment? taken a
  revert found balanced
  generalize assignment? taken = r, assignment? (taken.map Token.lower) = r'
  intro found balanced
  cases found with
  | none => exact .none
  | some both =>
    cases both with
    | found twins =>
      obtain ⟨⟨deed, absent⟩, same⟩ := twins
      exact .some (.found (known_deed ⟨deed, same⟩ (whole (balanced _ rfl)) (.inl absent)))
    | refused e e' => exact .some (.refused e e')

theorem read_assignment (inside : taken <:+: ofLine line) (whole : Balanced taken → Balanced ts) :
    Both (Known line ts) ((assignment taken).map .action)
      ((assignment (taken.map Token.lower)).map .action) := by
  have found := known_assignment? inside whole
  unfold assignment
  revert found
  generalize assignment? taken = r, assignment? (taken.map Token.lower) = r'
  intro found
  cases found with
  | none => exact .refused _ _
  | some both => exact both.map fun _ _ known => known

theorem ofCommand_eq (first : Token) (rest : List Token) : ofCommand first rest =
    match fixed? first rest with
    | some reader => ofReader reader rest
    | none =>
      match assignment? (first :: rest) with
      | some result => result.map .action
      | none => ofReader call (first :: rest) := rfl

theorem read_ofCommand (isWord : first.isWord = true) (inside : first :: rest <:+: ofLine line) :
    Both (Known line (first :: rest)) (ofCommand first rest)
      (ofCommand first.lower (rest.map Token.lower)) := by
  have after : rest <:+: ofLine line := (List.suffix_cons first rest).isInfix.trans inside
  have grown : Balanced rest → Balanced (first :: rest) :=
    (Token.balanced_cons_flat (Token.nesting_of_isWord isWord) rest).2
  rw [ofCommand_eq, ofCommand_eq, fixed?_lower]
  cases fixed : fixed? first rest with
  | some x =>
    exact read_command? isWord after grown (command?_of_fixed? fixed)
  | none =>
    have assigns := known_assignment? inside id
    have calls := read_even finds_call even_call inside id
    rw [List.map_cons] at assigns calls
    dsimp only
    revert assigns
    generalize assignment? (first :: rest) = r,
      assignment? (first.lower :: rest.map Token.lower) = r'
    intro assigns
    cases assigns with
    | none => exact calls
    | some both => exact both.map fun _ _ known => known

theorem both_ite {c : Prop} [Decidable c] {R : LineForm → LineForm → Prop}
    {x x' y y' : Except LineError LineForm} (yes : Both R x x') (no : Both R y y') :
    Both R (if c then x else y) (if c then x' else y') := by
  split
  · exact yes
  · exact no

theorem aside_ofSingle? {word : String} {a : Action} (found : ofSingle? word = some a) :
    a.Aside line := by
  unfold ofSingle? at found
  split at found
  all_goals first | (obtain rfl := Option.some.inj found; exact ⟨trivial, rfl⟩) | simp at found

variable (same : UpTo Text.lower line line')

include same

theorem read_ofHeader {kind : ProcedureKind} (malformed : (Action.malformedHeader line).From line)
    (heads : HeadsHeader ts) (inside : taken <:+: ofLine line) :
    Known line ts (ofHeader line kind taken) (ofHeader line' kind (taken.map Token.lower)) := by
  unfold ofHeader
  rcases ((finds_header kind).value inside).elim with
    ⟨header, header', read, read', found⟩ | ⟨e, e', read, read'⟩
  · rw [read, read']
    exact ⟨found.1, ⟨nofun, rfl, fun _ => heads⟩,
      .action (congrArg Action.procedureStart found.2), .inl rfl⟩
  · rw [read, read']
    exact ⟨malformed, trivial, .malformed same e e', .inl rfl⟩

theorem read_ofVisible (malformed : (Action.malformedHeader line).From line)
    (heads : HeadsHeader ts) (inside : taken <:+: ofLine line) :
    Both (Known line ts) (ofVisible line taken) (ofVisible line' (taken.map Token.lower)) := by
  have whole : Both (Known line ts) (ofReader (declarationLine .dim) taken)
      (ofReader (declarationLine .dim) (taken.map Token.lower)) := read_other finds_dim inside
  cases taken with
  | nil => exact whole
  | cons t rest =>
    have after : rest <:+: ofLine line := (List.suffix_cons t rest).isInfix.trans inside
    rw [List.map_cons] at whole ⊢
    unfold ofVisible
    simp only [Token.kind_lower]
    generalize t.kind = kind
    split
    · exact .found (read_ofHeader same malformed heads after)
    · exact .found (read_ofHeader same malformed heads after)
    · exact read_other finds_constant after
    · exact read_other finds_typeStart after
    · exact read_other finds_enumStart after
    · exact read_other finds_dim after
    · exact whole

theorem read_ofIdentifier (word : first.isWord = true) (inside : first :: rest <:+: ofLine line) :
    Both (Known line (first :: rest)) (ofIdentifier line first rest)
      (ofIdentifier line' first.lower (rest.map Token.lower)) := by
  have mem : first ∈ ofLine line := inside.subset List.mem_cons_self
  have after : rest <:+: ofLine line := (List.suffix_cons first rest).isInfix.trans inside
  have grown : Balanced rest → Balanced (first :: rest) :=
    (Token.balanced_cons_flat (Token.nesting_of_isWord word) rest).2
  have second {p : Token → Bool} (caseless : ∀ t : Token, p t.lower = p t) :
      (rest.map Token.lower).head?.any p = rest.head?.any p := by
    cases rest with
    | nil => rfl
    | cons t _ => exact caseless t
  have unsupported : Twins (Action.Aside line) Action.lower (.unsupported line)
      (.unsupported line') := ⟨⟨Or.inl rfl, rfl⟩, congrArg Action.unsupported same⟩
  unfold ofIdentifier
  dsimp only
  rw [Token.text_lower, Text.lower_lower, List.length_map, second fun _ => rfl,
    second Token.isWord_lower, second fun _ => rfl, second (Token.isNamed_lower "error")]
  refine both_ite (.found (known_aside ⟨⟨⟨first, mem, word, rfl⟩, rfl⟩, ?_⟩)) ?_
  · simp only [UpTo, Action.lower, Text.lower_lower]
  refine both_ite (read_other (finds_option same) after) ?_
  refine both_ite (read_other finds_dim after) ?_
  refine both_ite ((finds_every.value after).map fun _ _ found =>
    ⟨found.1, trivial, .every found.2, .inl rfl⟩) ?_
  refine both_ite (.found (known_aside ⟨⟨trivial, rfl⟩, rfl⟩)) ?_
  refine both_ite (read_even finds_messageBox (even_first even_callArguments _) after grown) ?_
  refine both_ite (.found (known_aside unsupported)) ?_
  refine both_ite (.found (known_aside unsupported)) ?_
  refine both_ite (read_other finds_randomize after) ?_
  refine both_ite (read_other finds_doEvents after) ?_
  cases rest with
  | cons t more => exact read_ofCommand word inside
  | nil =>
    cases found : ofSingle? (Text.lower first.text) with
    | none => exact read_ofCommand word inside
    | some known => exact .found (known_aside ⟨aside_ofSingle? found, rfl⟩)

theorem read_ofKeyword {word : Keyword} (kind : first.kind = .keyword word)
    (malformed : (Action.malformedHeader line).From line) (after : rest <:+: ofLine line) :
    Both (Known line (first :: rest)) (ofKeyword line word first rest)
      (ofKeyword line' word first.lower (rest.map Token.lower)) := by
  have isWord : first.isWord = true := by simp [Token.isWord, kind, TokenKind.isWord]
  have grown : Balanced rest → Balanced (first :: rest) :=
    (Token.balanced_cons_flat (Token.nesting_of_isWord isWord) rest).2
  unfold ofKeyword
  split
  · exact read_ofVisible same malformed ⟨first, rest, rfl, by simp [kind]⟩ after
  · exact read_ofVisible same malformed ⟨first, rest, rfl, by simp [kind]⟩ after
  · exact .found (read_ofHeader same malformed ⟨first, rest, rfl, by simp [kind]⟩ after)
  · exact .found (read_ofHeader same malformed ⟨first, rest, rfl, by simp [kind]⟩ after)
  · exact read_other finds_ending after
  · exact read_other finds_constant after
  · exact read_other finds_dim after
  · exact read_other finds_static after
  · exact read_other finds_typeStart after
  · exact read_other finds_enumStart after
  · exact read_other finds_exit after
  · exact read_other finds_continueLoop after
  · exact read_other finds_goto after
  · exact read_other finds_returnValue after
  · exact read_other finds_withObject after
  · exact (finds_loopTest.value after).map fun _ _ found =>
      known_aside ⟨⟨found.1, rfl⟩, congrArg Action.doLoop found.2⟩
  · exact (finds_loopTest.value after).map fun _ _ found =>
      known_aside ⟨⟨found.1, rfl⟩, congrArg Action.loopEnd found.2⟩
  · exact read_other finds_forLoop after
  · exact .found (known_aside ⟨⟨trivial, rfl⟩, rfl⟩)
  · exact read_other finds_elseIf after
  · exact read_other finds_elseBlock after
  · exact read_other finds_whileLoop after
  · exact read_other finds_wend after
  · exact read_other finds_select after
  · exact read_other finds_caseOf after
  · exact read_even finds_call even_call after grown
  · exact read_assignment after grown
  · exact read_assignment after grown
  · exact .refused _ _

theorem read_ofTokens (whole : ofLine line = first :: rest) :
    Both (Known line (ofLine line)) (ofTokens line first rest)
      (ofTokens line' first.lower (rest.map Token.lower)) := by
  have inside : first :: rest <:+: ofLine line := whole ▸ List.infix_refl _
  have after : rest <:+: ofLine line := (List.suffix_cons first rest).isInfix.trans inside
  have words := fun word (kind : first.kind = .keyword word) => read_ofKeyword same kind
    ⟨rfl, first, rest, whole, by simp [Token.isWord, kind, TokenKind.isWord]⟩ after
  have names := fun kind : first.kind = .identifier =>
    read_ofIdentifier same (by simp [Token.isWord, kind, TokenKind.isWord]) inside
  rw [← whole] at words names
  unfold ofTokens
  rw [Token.kind_lower]
  split <;> rename_i kind
  · exact read_other finds_includeFile after
  · exact names kind
  · exact words _ kind
  · exact .refused _ _

omit same

theorem known_of_read {f : LineForm} (whole : ofLine line = first :: rest)
    (read : ofTokens line first rest = .ok f) :
    f.From line ∧ f.Settled (ofLine line) ∧ f.Delayed (ofLine line) := by
  obtain ⟨_, -, known⟩ := (read_ofTokens (Text.lower_lower line).symm whole).of_ok read
  exact ⟨known.origin, known.settled, known.delayed⟩

end LineForm

end BasicSketch
