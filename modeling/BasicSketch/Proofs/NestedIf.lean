import BasicSketch.Proofs.DeedLines
import BasicSketch.Proofs.Reading

set_option autoImplicit false

/-! Single-line `If`s inside one another. -/

namespace BasicSketch

open Token LineForm

def TokenKind.joinsIf : TokenKind → Bool
  | .keyword .If | .keyword .Then | .keyword .Else => true
  | _ => false

/-- `If`s on one line. A branch is another one or an action. -/
inductive IfTree where
  | leaf (action : Action)
  | ifThen (condition : Expr) (thenBranch : IfTree)
  | ifElse (condition : Expr) (thenBranch elseBranch : IfTree)

namespace IfTree

def form : IfTree → LineForm
  | .leaf a => .action a
  | .ifThen c t => .inlineIf c t.form
  | .ifElse c t e => .inlineIfElse c t.form e.form

def statement (line : Nat) : IfTree → Statement
  | .leaf a => .plain line a
  | .ifThen c t => .inlineIf line c (t.statement line)
  | .ifElse c t e => .inlineIfElse line c (t.statement line) (e.statement line)

def holdsElse : IfTree → Bool
  | .leaf _ => false
  | .ifThen _ t => t.holdsElse
  | .ifElse .. => true

/-- No then-branch holds an `Else`. -/
def elsesOutside : IfTree → Bool
  | .leaf _ => true
  | .ifThen _ t => !t.holdsElse
  | .ifElse _ t e => !t.holdsElse && e.elsesOutside

theorem elsesOutside_of_not_holdsElse {tree : IfTree} (absent : tree.holdsElse = false) :
    tree.elsesOutside = true := by
  cases tree with
  | leaf => rfl
  | ifThen c t => rw [elsesOutside, show t.holdsElse = false from absent, Bool.not_false]
  | ifElse => cases absent

structure IsCondition (ts : List Token) : Prop where
  nonempty : ts ≠ []
  balanced : Balanced ts
  free : ∀ t ∈ ts, t.kind.joinsIf = false

/-- The text spells the tree, whatever `If` an `Else` goes with. -/
inductive Spells : String → IfTree → Prop
  | leaf {text : String} {action : Action} (read : ofText text = .action action)
      (deed : action.isDeed = true) (free : ∀ t ∈ ofLine text, t.kind.joinsIf = false) :
      Spells text (.leaf action)
  | ifThen {text : String} {if_ then_ : Token} {condition branch : List Token} {tree : IfTree}
      (line : ofLine text = if_ :: (condition ++ then_ :: branch))
      (isIf : if_.kind = .keyword .If) (isThen : then_.kind = .keyword .Then)
      (tests : IsCondition condition) (below : Spells (branchText branch) tree) :
      Spells text (.ifThen (.ofText (slice condition)) tree)
  | ifElse {text : String} {if_ then_ else_ : Token} {condition branch other : List Token}
      {tree tree' : IfTree}
      (line : ofLine text = if_ :: (condition ++ then_ :: (branch ++ else_ :: other)))
      (isIf : if_.kind = .keyword .If) (isThen : then_.kind = .keyword .Then)
      (isElse : else_.kind = .keyword .Else) (tests : IsCondition condition)
      (below : Spells (branchText branch) tree) (below' : Spells (branchText other) tree') :
      Spells text (.ifElse (.ofText (slice condition)) tree tree')

end IfTree

namespace Token

def notElse (kind : TokenKind) : Bool := kind != .keyword .Else

theorem mem_known {kind : TokenKind} (is : kind ≠ .unknown) {ts : List Token} :
    kind ∈ known ts ↔ ∃ t ∈ ts, t.kind = kind := by
  simp [known, is]

theorem known_takeWhile (ts : List Token) :
    known (ts.takeWhile fun t => notElse t.kind) = (known ts).takeWhile notElse := by
  induction ts with
  | nil => rfl
  | cons t ts ih =>
    rw [known_cons, List.takeWhile_cons]
    by_cases unknown : t.kind = .unknown
    · rw [if_pos unknown, unknown, if_pos (by decide), known_cons, if_pos unknown, ih]
    · rw [if_neg unknown, List.takeWhile_cons]
      split
      · rw [known_cons, if_neg unknown, ih]
      · rfl

theorem known_dropWhile (ts : List Token) :
    known (ts.dropWhile fun t => notElse t.kind) = (known ts).dropWhile notElse := by
  have both := congrArg known
    (List.takeWhile_append_dropWhile (p := fun t : Token => notElse t.kind) (l := ts))
  rw [known_append, known_takeWhile] at both
  exact List.append_cancel_left (both.trans List.takeWhile_append_dropWhile.symm)

end Token

namespace LineForm

structure Divides (kinds : List TokenKind) (holdsElse : Bool) : Prop where
  first : ∃ kind rest, kinds = kind :: rest ∧ kind ≠ .keyword .Else
  top : depth? 0 ((kinds.takeWhile notElse).map fun kind => nesting ⟨kind, "", "", 0⟩) = some 0
  holds : .keyword .Else ∈ kinds ↔ holdsElse = true
  behind : (kinds.dropWhile notElse).length ≠ 1

variable {kinds : List TokenKind} {ts : List Token}

theorem notElse_of_not_mem (absent : .keyword .Else ∉ kinds) :
    ∀ kind ∈ kinds, notElse kind = true := by
  intro kind mem
  rw [notElse, bne_iff_ne]
  rintro rfl
  exact absent mem

theorem takeWhile_of_not_mem (absent : .keyword .Else ∉ kinds) :
    kinds.takeWhile notElse = kinds := by
  have whole : (kinds ++ []).takeWhile notElse = kinds ++ [].takeWhile notElse :=
    List.takeWhile_append_of_pos (notElse_of_not_mem absent)
  rwa [List.append_nil, List.takeWhile_nil, List.append_nil] at whole

theorem else_not_mem_known (free : ∀ t ∈ ts, t.kind.joinsIf = false) :
    .keyword .Else ∉ known ts := by
  intro mem
  obtain ⟨t, inside, isElse⟩ := (mem_known (by simp)).1 mem
  have joins := free t inside
  rw [isElse] at joins
  cases joins

theorem Divides.behind_condition {condition : List Token} {holdsElse : Bool}
    (tests : IfTree.IsCondition condition) (divides : Divides kinds holdsElse) :
    Divides (.keyword .If :: (known condition ++ .keyword .Then :: kinds)) holdsElse := by
  have absent := else_not_mem_known tests.free
  have front : .keyword .If :: (known condition ++ .keyword .Then :: kinds) =
      (.keyword .If :: (known condition ++ [.keyword .Then])) ++ kinds := by simp
  have passed : ∀ kind ∈ .keyword .If :: (known condition ++ [.keyword .Then]),
      notElse kind = true := notElse_of_not_mem (by simpa using absent)
  refine ⟨⟨_, _, rfl, by simp⟩, ?_, ?_, ?_⟩
  · rw [front, List.takeWhile_append_of_pos passed, List.map_append, depth?_append]
    have balanced := balanced_iff_known.1 tests.balanced
    have reached : depth? 0 ((.keyword .If :: (known condition ++ [.keyword .Then])).map
        fun kind => nesting ⟨kind, "", "", 0⟩) = some 0 := by
      rw [List.map_cons, List.map_append]
      change depth? 0 (.flat :: (_ ++ [.flat])) = some 0
      rw [depth?, depth?_append, balanced]
      rfl
    rw [reached]
    exact divides.top
  · simpa [absent] using divides.holds
  · rw [front, List.dropWhile_append_of_pos passed]
    exact divides.behind

theorem Divides.before_else {other : List TokenKind} {holdsElse holdsElse' : Bool}
    (divides : Divides kinds holdsElse) (divides' : Divides other holdsElse') :
    Divides (kinds ++ .keyword .Else :: other) true := by
  have taken : (.keyword .Else :: other).takeWhile notElse = [] := rfl
  have left : (.keyword .Else :: other).dropWhile notElse = .keyword .Else :: other := rfl
  refine ⟨?_, ?_, by simp, ?_⟩
  · obtain ⟨kind, rest, rfl, black⟩ := divides.first
    exact ⟨kind, _, rfl, black⟩
  · rw [List.takeWhile_append, taken]
    have top := divides.top
    split
    · rename_i all
      rw [(List.takeWhile_sublist _).eq_of_length all] at top
      simpa using top
    · exact top
  · rw [List.dropWhile_append, left]
    obtain ⟨kind, rest, rfl, -⟩ := divides'.first
    split
    · simp
    · simp only [List.length_append, List.length_cons]
      omega

theorem divides_of_free (starts : ∃ t rest, ts = t :: rest ∧ t.kind ≠ .unknown)
    (free : ∀ t ∈ ts, t.kind.joinsIf = false) (balanced : Balanced ts) :
    Divides (known ts) false := by
  have absent := else_not_mem_known free
  have whole := takeWhile_of_not_mem absent
  refine ⟨?_, ?_, by simpa using absent, ?_⟩
  · obtain ⟨t, rest, rfl, black⟩ := starts
    rw [known_cons, if_neg black] at absent ⊢
    exact ⟨_, _, rfl, fun isElse => absent (isElse ▸ List.mem_cons_self)⟩
  · rw [whole]
    exact balanced_iff_known.1 balanced
  · have both := List.takeWhile_append_dropWhile (p := notElse) (l := known ts)
    rw [whole] at both
    rw [List.append_right_eq_self.1 both]
    simp

theorem Divides.ne_nil {holdsElse : Bool} (divides : Divides (known ts) holdsElse) : ts ≠ [] := by
  obtain ⟨kind, rest, kinds, -⟩ := divides.first
  rintro rfl
  cases kinds

theorem Divides.without_else (divides : Divides (known ts) false) :
    ts ≠ [] ∧ Balanced ts ∧ ∀ t ∈ ts, t.kind ≠ .keyword .Else := by
  have absent : .keyword .Else ∉ known ts := fun mem => by cases divides.holds.1 mem
  refine ⟨divides.ne_nil, ?_,
    fun t mem isElse => absent ((mem_known (by simp)).2 ⟨t, mem, isElse⟩)⟩
  rw [balanced_iff_known, ← takeWhile_of_not_mem absent]
  exact divides.top

theorem Divides.first_else (divides : Divides (known ts) true) :
    ∃ before else_ behind, ts = before ++ else_ :: behind ∧ else_.kind = .keyword .Else ∧
      (∀ t ∈ before, t.kind ≠ .keyword .Else) ∧ before ≠ [] ∧ behind ≠ [] ∧ Balanced before := by
  have both := List.takeWhile_append_dropWhile (p := fun t : Token => notElse t.kind) (l := ts)
  have stops := List.head?_dropWhile_not (fun t : Token => notElse t.kind) ts
  have behind := divides.behind
  have free : ∀ t ∈ ts.takeWhile fun t => notElse t.kind, t.kind ≠ .keyword .Else := by
    intro t mem
    simpa [notElse] using List.all_eq_true.1 List.all_takeWhile t mem
  rw [← known_dropWhile] at behind
  cases rest : ts.dropWhile fun t => notElse t.kind with
  | nil =>
    -- then no token would be an `Else`
    rw [rest, List.append_nil] at both
    rw [both] at free
    obtain ⟨t, mem, isElse⟩ := (mem_known (by simp)).1 (divides.holds.2 rfl)
    exact absurd isElse (free t mem)
  | cons else_ more =>
    rw [rest] at both stops behind
    have isElse : else_.kind = .keyword .Else := by simpa [notElse] using stops
    refine ⟨_, else_, more, both.symm, isElse, free, ?_, ?_, ?_⟩
    · intro absent
      have kinds := congrArg known absent
      obtain ⟨kind, rest, eq, other⟩ := divides.first
      rw [known_takeWhile, eq, List.takeWhile_cons,
        if_pos (by simpa [notElse] using other)] at kinds
      cases kinds
    · rintro rfl
      rw [known_cons, if_neg (by simp [isElse])] at behind
      exact behind rfl
    · rw [balanced_iff_known, known_takeWhile]
      exact divides.top

variable {text : String}

theorem settled_of_action {a : Action} (read : ofText text = .action a) :
    (∃ c, a = .ifBlock c) ∨ (∃ t rest, ofLine text = t :: rest ∧ t.kind ≠ .unknown) ∧
      Settled (ofLine text) (.action a) := by
  rw [ofText] at read
  split at read
  · cases read
  · rename_i first rest line
    split at read
    · split at read
      · cases read
      · exact .inl ⟨_, (LineForm.action.inj read).symm⟩
      · exact .inl ⟨_, (LineForm.action.inj read).symm⟩
      · split at read <;> cases read
    · split at read
      · rename_i found
        rw [read] at found
        refine .inr ⟨⟨first, rest, line, fun unknown => ?_⟩, (known_of_read line found).2.1⟩
        simp [ofTokens, unknown] at found
      · cases read

theorem settled_of_deed {a : Action} (read : ofText text = .action a) (deed : a.isDeed = true) :
    (∃ t rest, ofLine text = t :: rest ∧ t.kind ≠ .unknown) ∧ Balanced (ofLine text) := by
  rcases settled_of_action read with ⟨c, rfl⟩ | ⟨starts, settled⟩
  · cases deed
  · exact ⟨starts, settled.1 deed⟩

section If

variable {if_ then_ : Token} {condition branch : List Token}
  (line : ofLine text = if_ :: (condition ++ then_ :: branch))

include line

theorem known_if (isIf : if_.kind = .keyword .If) (isThen : then_.kind = .keyword .Then) :
    known (ofLine text) = .keyword .If :: (known condition ++ .keyword .Then :: known branch) := by
  rw [line, known_cons, if_neg (by simp [isIf]), isIf, known_append, known_cons,
    if_neg (by simp [isThen]), isThen]

theorem infix_branch (before part after : List Token) (whole : branch = before ++ (part ++ after)) :
    part <:+: ofLine text := by
  rw [line, whole]
  exact ⟨if_ :: (condition ++ then_ :: before), after, by simp⟩

variable (isIf : if_.kind = .keyword .If) (isThen : then_.kind = .keyword .Then)
  (tests : IfTree.IsCondition condition)

include isIf isThen tests

theorem ofText_split (filled : branch ≠ []) :
    ofText text =
      match splitElse branch with
      | ([], _) => .untranslated text (Reader.errorHere "statement after THEN" branch)
      | (thenPart, []) => .inlineIf (.ofText (slice condition)) (ofText (branchText thenPart))
      | (thenPart, [_]) => .danglingElse text (ofText (branchText thenPart))
      | (thenPart, _ :: elsePart) =>
        .inlineIfElse (.ofText (slice condition)) (ofText (branchText thenPart))
          (ofText (branchText elsePart)) := by
  have free : ∀ t ∈ condition, (t.kind == .keyword .Then) = false := by
    intro t mem
    have joins := tests.free t mem
    refine beq_eq_false_iff_ne.2 fun isThen => ?_
    rw [isThen] at joins
    cases joins
  have parts : splitAtTop (· == .keyword .Then) 0 (condition ++ then_ :: branch) =
      (condition, then_ :: branch) :=
    splitAtTop_found tests.balanced free (by simp [isThen])
  have tested : Phrase.condition.run (condition ++ then_ :: branch) =
      .ok (.ofText (slice condition), then_ :: branch) := by
    rw [Phrase.condition, Reader.run_exprUntil, parts, if_neg (by simpa using tests.nonempty),
      check_of_balanced tests.balanced]
  obtain ⟨t, ts, rfl⟩ := List.exists_cons_of_ne_nil filled
  rw [ofText]
  split
  · simp_all
  · rename_i first rest line'
    obtain ⟨rfl, rfl⟩ := List.cons.inj (line.symm.trans line')
    rw [if_pos (by simp [isIf])]
    split <;> rename_i read <;> rw [tested] at read
    · cases read
    · simp at read
    · simp at read
    · simp only [Except.ok.injEq, Prod.mk.injEq, List.cons.injEq] at read
      obtain ⟨rfl, -, rfl, rfl⟩ := read
      split <;> rename_i parts <;> simp only [parts]

theorem ofText_without_else (divides : Divides (known branch) false) :
    ofText text = .inlineIf (.ofText (slice condition)) (ofText (branchText branch)) := by
  obtain ⟨filled, -, free⟩ := divides.without_else
  have absent : ∀ t ∈ branch, (t.kind == .keyword .Else) = false :=
    fun t mem => beq_eq_false_iff_ne.2 (free t mem)
  have parts : splitElse branch = (branch, []) := splitAtTop_of_free absent 0
  rw [ofText_split line isIf isThen tests filled, parts]
  obtain ⟨t, ts, rfl⟩ := List.exists_cons_of_ne_nil filled
  rfl

theorem ofText_at_else {before behind : List Token} {else_ : Token}
    (whole : branch = before ++ else_ :: behind) (isElse : else_.kind = .keyword .Else)
    (free : ∀ t ∈ before, t.kind ≠ .keyword .Else) (balanced : Balanced before)
    (filled : before ≠ []) (more : behind ≠ []) :
    ofText text = .inlineIfElse (.ofText (slice condition)) (ofText (branchText before))
      (ofText (branchText behind)) := by
  have parts : splitElse branch = (before, else_ :: behind) := by
    rw [whole]
    exact splitAtTop_found balanced (fun t mem => beq_eq_false_iff_ne.2 (free t mem))
      (by simp [isElse])
  rw [ofText_split line isIf isThen tests (by simp [whole]), parts]
  obtain ⟨t, ts, rfl⟩ := List.exists_cons_of_ne_nil filled
  obtain ⟨u, us, rfl⟩ := List.exists_cons_of_ne_nil more
  rfl

end If

def holdsElse : LineForm → Bool
  | .inlineIf _ f => f.holdsElse
  | .inlineIfElse .. | .danglingElse .. => true
  | _ => false

theorem holdsElse_of_free (free : .keyword .Else ∉ known (ofLine text)) :
    (ofText text).holdsElse = false := by
  induction n : text.length using Nat.strongRecOn generalizing text with
  | ind n ih =>
  subst n
  have free' : ∀ t ∈ ofLine text, (t.kind == .keyword .Else) = false := by
    intro t mem
    refine beq_eq_false_iff_ne.2 fun isElse => free ?_
    exact (mem_known (by simp)).2 ⟨t, mem, isElse⟩
  rw [ofText]
  split
  · rfl
  · rename_i first rest line
    split
    · split
      · rfl
      · rfl
      · rfl
      · rename_i c then_ t ts read
        have left := Reader.suffix_of_run read
        have inside : t :: ts <:+: ofLine text := by
          rw [line]
          exact ((List.suffix_cons then_ _).trans
            (left.trans (List.suffix_cons first rest))).isInfix
        have alone : splitElse (t :: ts) = (t :: ts, []) :=
          splitAtTop_of_free (fun u mem => free' u (inside.subset mem)) 0
        have shorter : (branchText (t :: ts)).length < text.length := by
          have within := extent_le_of_suffix left
          rw [extent_cons] at within
          exact length_branchText_lt line (by omega)
        have below : (ofText (branchText (t :: ts))).holdsElse = false := by
          refine ih _ shorter (fun mem => free ?_) rfl
          rw [branchText, known_trim_slice inside] at mem
          obtain ⟨u, inside', isElse⟩ := (mem_known (by simp)).1 mem
          exact (mem_known (by simp)).2 ⟨u, inside.subset inside', isElse⟩
        split <;> rename_i parts <;> rw [alone] at parts
        · rfl
        · obtain ⟨rfl, -⟩ := Prod.mk.inj parts
          exact below
        · simp at parts
        · simp at parts
    · split
      · rename_i form found
        have settled := (known_of_read line found).2.1
        cases form with
        | action | malformed | every => rfl
        | _ => exact settled.elim
      · rfl

end LineForm

namespace IfTree

variable {text : String} {tree : IfTree}

theorem Spells.divides (spelled : Spells text tree) :
    Divides (known (ofLine text)) tree.holdsElse := by
  induction spelled with
  | leaf read deed free =>
    obtain ⟨starts, balanced⟩ := settled_of_deed read deed
    exact divides_of_free starts free balanced
  | @ifThen _ _ _ _ branch _ line isIf isThen tests below ih =>
    rw [branchText, known_trim_slice (infix_branch line [] branch [] (by simp))] at ih
    rw [known_if line isIf isThen]
    exact ih.behind_condition tests
  | @ifElse _ _ _ else_ _ branch other _ _ line isIf isThen isElse tests below below' ih ih' =>
    rw [branchText, known_trim_slice (infix_branch line [] branch _ rfl)] at ih
    rw [branchText,
      known_trim_slice (infix_branch line (branch ++ [else_]) other [] (by simp))] at ih'
    rw [known_if line isIf isThen, known_append, known_cons, if_neg (by simp [isElse]), isElse]
    exact (ih.before_else ih').behind_condition tests

theorem Spells.divides_branch {line : String} {branch : List Token}
    (spelled : Spells (branchText branch) tree) (inside : branch <:+: ofLine line) :
    Divides (known branch) tree.holdsElse := by
  rw [← known_trim_slice inside]
  exact spelled.divides

theorem holdsElse_form (tree : IfTree) : tree.form.holdsElse = tree.holdsElse := by
  induction tree with
  | leaf => rfl
  | ifThen c t ih => exact ih
  | ifElse => rfl

theorem Spells.first_if (spelled : Spells text tree) (holds : tree.holdsElse = true) :
    ∃ if_ condition then_ before else_ behind,
      ofLine text = if_ :: (condition ++ then_ :: (before ++ else_ :: behind)) ∧
      (if_.kind = .keyword .If ∧ then_.kind = .keyword .Then ∧ else_.kind = .keyword .Else) ∧
      IsCondition condition ∧ (∀ t ∈ before, t.kind ≠ .keyword .Else) ∧
      ofText text = .inlineIfElse (.ofText (slice condition)) (ofText (branchText before))
        (ofText (branchText behind)) := by
  cases spelled with
  | leaf => cases holds
  | @ifThen _ if_ then_ condition branch t line isIf isThen tests below =>
    have divides := below.divides_branch (infix_branch line [] branch [] (by simp))
    rw [show t.holdsElse = true from holds] at divides
    obtain ⟨before, else_, behind, rfl, isElse, free, filled, more, balanced⟩ := divides.first_else
    exact ⟨if_, condition, then_, before, else_, behind, line, ⟨isIf, isThen, isElse⟩, tests, free,
      ofText_at_else line isIf isThen tests rfl isElse free balanced filled more⟩
  | @ifElse _ if_ then_ else_ condition branch other t e line isIf isThen isElse tests
      below below' =>
    have divides := below.divides_branch (infix_branch line [] branch _ rfl)
    have divides' :=
      below'.divides_branch (infix_branch line (branch ++ [else_]) other [] (by simp))
    have whole := divides.before_else divides'
    have kinds : known (branch ++ else_ :: other) =
        known branch ++ .keyword .Else :: known other := by
      rw [known_append, known_cons, if_neg (by simp [isElse]), isElse]
    rw [← kinds] at whole
    obtain ⟨before, else', behind, eq, isElse', free, filled, more, balanced⟩ := whole.first_else
    exact ⟨if_, condition, then_, before, else', behind, eq ▸ line, ⟨isIf, isThen, isElse'⟩, tests,
      free, ofText_at_else line isIf isThen tests eq isElse' free balanced filled more⟩

theorem Spells.ofText_eq_form (spelled : Spells text tree) :
    ofText text = tree.form ↔ tree.elsesOutside = true := by
  induction spelled with
  | leaf read => exact ⟨fun _ => rfl, fun _ => read⟩
  | @ifThen _ _ _ _ branch t line isIf isThen tests below ih =>
    have divides := below.divides_branch (infix_branch line [] branch [] (by simp))
    rw [form, elsesOutside]
    cases inside : t.holdsElse with
    | false =>
      rw [inside] at divides
      rw [ofText_without_else line isIf isThen tests divides,
        ih.2 (elsesOutside_of_not_holdsElse inside)]
      simp
    | true =>
      obtain ⟨_, _, _, _, _, _, _, _, _, _, read⟩ :=
        (Spells.ifThen line isIf isThen tests below).first_if inside
      rw [read]
      simp
  | @ifElse _ _ _ else_ _ branch other t e line isIf isThen isElse tests below below' ih ih' =>
    have divides := below.divides_branch (infix_branch line [] branch _ rfl)
    have divides' :=
      below'.divides_branch (infix_branch line (branch ++ [else_]) other [] (by simp))
    rw [form, elsesOutside]
    cases inside : t.holdsElse with
    | false =>
      -- the first `Else` of the line is that of the tree
      rw [inside] at divides
      obtain ⟨filled, balanced, free⟩ := divides.without_else
      rw [ofText_at_else line isIf isThen tests rfl isElse free balanced filled divides'.ne_nil,
        ih.2 (elsesOutside_of_not_holdsElse inside)]
      simpa using ih'
    | true =>
      -- the first `Else` of the line is inside the then-branch, and what stands before it has none
      obtain ⟨_, _, _, before, _, _, line', _, _, free, read⟩ :=
        (Spells.ifElse line isIf isThen isElse tests below below').first_if rfl
      have absent : (ofText (branchText before)).holdsElse = false := by
        refine holdsElse_of_free fun mem => ?_
        rw [branchText, known_trim_slice (infix_branch line' [] before _ rfl)] at mem
        obtain ⟨u, mem', isElse⟩ := (mem_known (by simp)).1 mem
        exact free u mem' isElse
      rw [read]
      constructor
      · intro same
        rw [(LineForm.inlineIfElse.inj same).2.1, holdsElse_form, inside] at absent
        cases absent
      · intro outside
        cases outside

def deeds : IfTree → Bool
  | .leaf a => a.isDeed
  | .ifThen _ t => t.deeds
  | .ifElse _ t e => t.deeds && e.deeds

theorem Spells.deeds (spelled : Spells text tree) : tree.deeds = true := by
  induction spelled with
  | leaf _ deed _ => exact deed
  | ifThen _ _ _ _ _ ih => exact ih
  | ifElse _ _ _ _ _ _ _ ih ih' => exact Bool.and_eq_true_iff.2 ⟨ih, ih'⟩

theorem after_of_deed (s : Reading) {a : Action} (deed : a.isDeed = true) : s.after a = s := by
  cases a <;> first | rfl | cases deed

theorem statement_form {s : Reading} (free : s.body = none) (deeds : tree.deeds = true) :
    (s.statement s.line tree.form).1 = (tree.statement s.line, s) := by
  have left : { s with body := none } = s := by rw [← free]
  induction tree with
  | leaf a => rw [form, Reading.statement_action, after_of_deed s deeds, statement]
  | ifThen c t ih =>
    rw [form, Reading.statement_inlineIf, ih deeds, statement]
    exact Prod.ext rfl left
  | ifElse c t e ih ih' =>
    obtain ⟨first, second⟩ := Bool.and_eq_true_iff.1 deeds
    have between : s.afterThen t.form = s := by
      rw [Reading.afterThen, ih first]
      exact left
    rw [form, Reading.statement_inlineIfElse, between, ih first, ih' second, statement]
    exact Prod.ext rfl left

theorem form_of_statement {s : Reading} {number line : Nat} {f : LineForm}
    (deeds : tree.deeds = true) (same : (s.statement number f).1.1 = tree.statement line) :
    f = tree.form := by
  induction tree generalizing s number f with
  | leaf a =>
    cases f with
    | action b =>
      rw [Reading.statement_action] at same
      rw [(Statement.plain.inj same).2, form]
    | malformed | untranslated | danglingElse =>
      simp only [Reading.statement_malformed, Reading.statement_untranslated,
        Reading.statement_danglingElse, statement, Statement.plain.injEq] at same
      rw [← same.2] at deeds
      cases deeds
    | every | inlineIf | inlineIfElse =>
      simp [Reading.statement_every, Reading.statement_inlineIf, Reading.statement_inlineIfElse,
        statement] at same
  | ifThen c t ih =>
    cases f with
    | inlineIf c' g =>
      rw [Reading.statement_inlineIf] at same
      obtain ⟨-, rfl, below⟩ := Statement.inlineIf.inj same
      rw [ih deeds below, form]
    | _ =>
      simp [Reading.statement_action, Reading.statement_malformed, Reading.statement_untranslated,
        Reading.statement_danglingElse, Reading.statement_every, Reading.statement_inlineIfElse,
        statement] at same
  | ifElse c t e ih ih' =>
    obtain ⟨first, second⟩ := Bool.and_eq_true_iff.1 deeds
    cases f with
    | inlineIfElse c' g h =>
      rw [Reading.statement_inlineIfElse] at same
      obtain ⟨-, rfl, below, below'⟩ := Statement.inlineIfElse.inj same
      rw [ih first below, ih' second below', form]
    | _ =>
      simp [Reading.statement_action, Reading.statement_malformed, Reading.statement_untranslated,
        Reading.statement_danglingElse, Reading.statement_every, Reading.statement_inlineIf,
        statement] at same

end IfTree

theorem Program.statements_of_line {source text : String} {number : Nat}
    (lines : LogicalLine.ofSource source = [⟨number, text⟩]) :
    (ofSource source).statements =
      [((⟨[], number, none, []⟩ : Reading).statement number (ofText text)).1.1] := by
  have first := @Reading.lineStatement_opens ⟨[], 0, none, []⟩ _ ⟨number, text⟩ (.free rfl)
  -- no line is left behind the first one, whatever it says
  have none_left : (Reading.lineStatement ⟨[], 0, none, []⟩ ⟨number, text⟩).1.2.lines = [] :=
    List.eq_nil_of_length_eq_zero
      (Nat.le_zero.1 (Reading.lineStatement ⟨[], 0, none, []⟩ ⟨number, text⟩).2)
  have read := @Reading.statements_cons (.ofLines [⟨number, text⟩]) none ⟨number, text⟩ [] rfl
    (by simp)
  have ended := @Reading.statements_end _ none none_left
  have whole : (ofSource source).statements =
      ((Reading.ofLines (LogicalLine.ofSource source)).statements none).1.1 := rfl
  rw [whole, lines, read]
  exact List.cons_eq_cons.2 ⟨congrArg Prod.fst first, congrArg Prod.fst ended⟩

/-- A line that spells a tree of single-line `If`s is read back as that tree just if no then-branch
of the tree holds an `Else`. -/
theorem nested_ifs_read_back {source text : String} {number : Nat} {tree : IfTree}
    (lines : LogicalLine.ofSource source = [⟨number, text⟩]) (spelled : IfTree.Spells text tree) :
    ((Program.ofSource source).statements = [tree.statement number] ↔ tree.elsesOutside = true) ∧
      (tree.holdsElse = true → ∃ if_ condition then_ before else_ behind,
        ofLine text = if_ :: (condition ++ then_ :: (before ++ else_ :: behind)) ∧
        (if_.kind = .keyword .If ∧ then_.kind = .keyword .Then ∧ else_.kind = .keyword .Else) ∧
        IfTree.IsCondition condition ∧ (∀ t ∈ before, t.kind ≠ .keyword .Else) ∧
        ofText text = .inlineIfElse (.ofText (slice condition)) (ofText (branchText before))
          (ofText (branchText behind))) := by
  refine ⟨?_, spelled.first_if⟩
  rw [Program.statements_of_line lines, ← spelled.ofText_eq_form, List.cons_eq_cons]
  constructor
  · rintro ⟨same, -⟩
    exact IfTree.form_of_statement spelled.deeds same
  · intro read
    have whole := @IfTree.statement_form tree ⟨[], number, none, []⟩ rfl spelled.deeds
    rw [read]
    exact ⟨congrArg Prod.fst whole, rfl⟩

theorem else_taken_by_outer_if :
    let text := "If c1 Then If c2 Then x = 1 Else y = 2"
    let inner : IfTree := .ifThen ⟨"c1"⟩
      (.ifElse ⟨"c2"⟩ (.leaf (.assign "x" ⟨"1"⟩)) (.leaf (.assign "y" ⟨"2"⟩)))
    let outer : IfTree := .ifElse ⟨"c1"⟩
      (.ifThen ⟨"c2"⟩ (.leaf (.assign "x" ⟨"1"⟩))) (.leaf (.assign "y" ⟨"2"⟩))
    LogicalLine.ofSource text = [⟨1, text⟩] ∧ IfTree.Spells text inner ∧ IfTree.Spells text outer ∧
      (Program.ofSource text).statements ≠ [inner.statement 1] ∧
      (Program.ofSource text).statements = [outer.statement 1] := by
  intro text inner outer
  have lines : LogicalLine.ofSource text = [⟨1, text⟩] := by decide +kernel
  have free (t : String) (all : (ofLine t).all (!·.kind.joinsIf) = true) :
      ∀ u ∈ ofLine t, u.kind.joinsIf = false := by simpa using all
  have test (name : Token) (kind : name.kind = .identifier) : IfTree.IsCondition [name] := by
    refine ⟨by simp, by simp [Token.Balanced, nesting, kind, depth?], ?_⟩
    simp [kind, TokenKind.joinsIf]
  have x : IfTree.Spells "x = 1" (.leaf (.assign "x" ⟨"1"⟩)) :=
    .leaf (by decide +kernel) rfl (free _ (by decide +kernel))
  have y : IfTree.Spells "y = 2" (.leaf (.assign "y" ⟨"2"⟩)) :=
    .leaf (by decide +kernel) rfl (free _ (by decide +kernel))
  let if_ (gap : String) (start : Nat) : Token := ⟨.keyword .If, gap, "If", start⟩
  let word (name : String) (start : Nat) : Token := ⟨.identifier, " ", name, start⟩
  let then_ (start : Nat) : Token := ⟨.keyword .Then, " ", "Then", start⟩
  let else_ (start : Nat) : Token := ⟨.keyword .Else, " ", "Else", start⟩
  let assigns (name value : String) (start : Nat) : List Token :=
    [word name start, ⟨.symbol .equals, " ", "=", start + 2⟩, ⟨.integer, " ", value, start + 4⟩]
  -- the trees are built from the texts of their parts
  have ifThen (t c below : String) (start : Nat) (branch : List Token) (tree : IfTree)
      (line : ofLine t = if_ "" 0 :: ([word c 3] ++ then_ start :: branch))
      (tested : Expr.ofText (slice [word c 3]) = ⟨c⟩) (rest : branchText branch = below)
      (spelled : IfTree.Spells below tree) : IfTree.Spells t (.ifThen ⟨c⟩ tree) := by
    rw [← tested]
    exact .ifThen line rfl rfl (test _ rfl) (rest ▸ spelled)
  have ifElse (t c below below' : String) (start start' : Nat) (branch other : List Token)
      (tree tree' : IfTree)
      (line : ofLine t =
        if_ "" 0 :: ([word c 3] ++ then_ start :: (branch ++ else_ start' :: other)))
      (tested : Expr.ofText (slice [word c 3]) = ⟨c⟩) (rest : branchText branch = below)
      (rest' : branchText other = below') (spelled : IfTree.Spells below tree)
      (spelled' : IfTree.Spells below' tree') : IfTree.Spells t (.ifElse ⟨c⟩ tree tree') := by
    rw [← tested]
    exact .ifElse line rfl rfl rfl (test _ rfl) (rest ▸ spelled) (rest' ▸ spelled')
  have second := ifElse "If c2 Then x = 1 Else y = 2" "c2" "x = 1" "y = 2" 6 17 (assigns "x" "1" 11)
    (assigns "y" "2" 22) _ _ (by decide +kernel) (by decide +kernel) (by decide +kernel)
    (by decide +kernel) x y
  have spelledInner : IfTree.Spells text inner :=
    ifThen text "c1" _ 6
      (if_ " " 11 :: word "c2" 14 :: then_ 17 ::
        (assigns "x" "1" 22 ++ else_ 28 :: assigns "y" "2" 33))
      _ (by decide +kernel) (by decide +kernel) (by decide +kernel) second
  have first := ifThen "If c2 Then x = 1" "c2" "x = 1" 6 (assigns "x" "1" 11) _
    (by decide +kernel) (by decide +kernel) (by decide +kernel) x
  have spelledOuter : IfTree.Spells text outer :=
    ifElse text "c1" _ "y = 2" 6 28 (if_ " " 11 :: word "c2" 14 :: then_ 17 :: assigns "x" "1" 22)
      (assigns "y" "2" 33) _ _ (by decide +kernel) (by decide +kernel) (by decide +kernel)
      (by decide +kernel) first y
  refine ⟨lines, spelledInner, spelledOuter, ?_, ?_⟩
  · intro same
    cases (nested_ifs_read_back lines spelledInner).1.1 same
  · exact (nested_ifs_read_back lines spelledOuter).1.2 rfl

end BasicSketch
