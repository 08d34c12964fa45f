import BasicSketch.LineForm
import BasicSketch.Proofs.Provenance

set_option autoImplicit false

/-! What readers do with the tokens ahead of them. -/

namespace BasicSketch

namespace Token

theorem splitCommas_eq (endColumn depth : Nat) (ts : List Token) :
    splitCommas endColumn depth ts =
      match splitAtTop (· == .symbol .comma) depth ts with
      | (piece, []) => [(piece, endColumn)]
      | (piece, comma :: rest) => (piece, comma.start) :: splitCommas endColumn 0 rest := by
  induction ts generalizing depth with
  | nil => rfl
  | cons t ts ih =>
    rw [splitCommas, splitAtTop]
    split
    · rfl
    · rw [ih]
      rcases splitAtTop (· == .symbol .comma) (depthAfter depth t) ts with
        ⟨piece, _ | ⟨comma, rest⟩⟩
        <;> rfl

end Token

namespace Reader

open Token (closeGroup?)

variable {α : Type}

theorem run_acceptIf (p : Token → Bool) (t : Token) (ts : List Token) :
    (acceptIf p).run (t :: ts) = if p t then .ok (true, ts) else .ok (false, t :: ts) := by
  by_cases holds : p t = true <;> simp [run, acceptIf, holds]

theorem run_take (p : Token → Bool) (expected : String) (t : Token) (ts : List Token) :
    (take p expected).run (t :: ts) =
      if p t then .ok (t, ts) else .error (errorHere expected (t :: ts)) := by
  by_cases holds : p t = true <;> simp [run, take, holds]

theorem run_commaList_eq (x : Reader α) (ts : List Token) :
    (commaList x).run ts = (do
      let a ← x
      if ← accept (.symbol .comma) then return a :: (← commaList x)
      else return [a] : Reader (List α)).run ts := by
  rw [run_commaList, run_bind]
  cases x.run ts with
  | error e => rfl
  | ok r =>
    obtain ⟨a, _ | ⟨t, rest⟩⟩ := r
    · rfl
    · simp only [accept, run_bind, run_acceptIf]
      by_cases comma : (t.kind == .symbol .comma) = true
      · simp only [if_pos comma, if_true, run_bind]
        cases (commaList x).run rest <;> rfl
      · simp only [if_neg comma]
        rfl

theorem run_scopes_eq (soFar : String) (ts : List Token) :
    run (Phrase.scopes soFar) ts = (do
      if ← accept (.symbol .doubleColon) then
        let part ← name "type name"
        Phrase.scopes (soFar ++ "::" ++ part)
      else return soFar : Reader String).run ts := by
  rw [run_bind]
  rcases ts with _ | ⟨t, _ | ⟨part, rest⟩⟩
  · rfl
  · rw [accept, run_acceptIf]
    have step : Phrase.scopes soFar [t] = @ite _ _ _ _ _ := rfl
    by_cases colons : (t.kind == .symbol .doubleColon) = true
    · simp only [run, step, if_pos colons]
      rfl
    · simp only [run, step, if_neg colons]
      rfl
  · rw [accept, run_acceptIf]
    have goesOn : Phrase.scopes soFar (t :: part :: rest) = @ite _ _ _ (@ite _ _ _ _ _) _ := rfl
    by_cases colons : (t.kind == .symbol .doubleColon) = true
    · have step := run_bind (name "type name")
        (fun part => (Phrase.scopes (soFar ++ "::" ++ part) : Reader String)) (part :: rest)
      rw [name, run_bind, run_take] at step
      simp only [if_pos colons, if_true]
      refine Eq.trans ?_ step.symm
      by_cases word : part.isWord = true
      · simp only [if_pos word, run_pure]
        simp only [run, goesOn, if_pos colons, if_pos word]
        cases Phrase.scopes (soFar ++ "::" ++ part.text) rest <;> rfl
      · simp only [run, goesOn, if_pos colons, if_neg word]
    · simp only [run, goesOn, if_neg colons]
      rfl

theorem run_group (expected : String) (t : Token) (rest : List Token) :
    (group expected).run (t :: rest) =
      match closeGroup? 0 rest with
      | none => .error (.unbalanced t.start)
      | some (inside, close, after) => .ok ((t, inside, close), after) := by
  rw [run, group]
  split <;> rename_i eq <;> split at eq <;> simp_all
  subst eq
  rfl

theorem run_callArguments (ts : List Token) :
    callArguments.run ts = (Token.callArguments ts).map (·, []) := by
  rw [run, callArguments]
  cases Token.callArguments ts <;> rfl

theorem run_readMembers (ts : List Token) :
    Phrase.members.run ts = .ok (Phrase.splitMembers ts) := rfl

end Reader

namespace LineForm

open Token (extent ofLine)

def ifParts (rest : List Token) :
    Except LineError (Expr × Option (List Token × Option (List Token))) :=
  match Phrase.condition.run rest with
  | .error e => .error e
  | .ok (condition, []) => .ok (condition, none)
  | .ok (condition, [_]) => .ok (condition, none)
  | .ok (condition, _ :: t :: ts) =>
    match splitElse (t :: ts) with
    | ([], _) => .error (Reader.errorHere "statement after THEN" (t :: ts))
    | (thenPart, []) => .ok (condition, some (thenPart, none))
    | (thenPart, _ :: elsePart) => .ok (condition, some (thenPart, some elsePart))

variable {first : Token} {rest : List Token} {text : String}

theorem ofText_if (line : ofLine text = first :: rest)
    (word : (first.kind == .keyword .If) = true) :
    ofText text =
      match ifParts rest with
      | .error e => .untranslated text e
      | .ok (condition, none) => .action (.ifBlock condition)
      | .ok (condition, some (thenPart, none)) =>
        .inlineIf condition (ofText (branchText thenPart))
      | .ok (_, some (thenPart, some [])) => .danglingElse text (ofText (branchText thenPart))
      | .ok (condition, some (thenPart, some (t :: ts))) =>
        .inlineIfElse condition (ofText (branchText thenPart)) (ofText (branchText (t :: ts))) := by
  rw [ofText]
  split
  · simp_all
  · rename_i first' rest' line'
    obtain ⟨rfl, rfl⟩ := List.cons.inj (line.symm.trans line')
    rw [if_pos word, ifParts]
    split <;> rename_i read <;> simp only [read]
    split <;> rename_i parts <;> simp only [parts]
    rename_i elsePart _ some_token
    cases elsePart with
    | nil => exact (some_token rfl).elim
    | cons t ts => rfl

theorem ofText_other (line : ofLine text = first :: rest)
    (word : ¬ (first.kind == .keyword .If) = true) :
    ofText text =
      match ofTokens text first rest with
      | .ok form => form
      | .error e => .untranslated text e := by
  rw [ofText]
  split
  · simp_all
  · rename_i first' rest' line'
    obtain ⟨rfl, rfl⟩ := List.cons.inj (line.symm.trans line')
    refine (if_neg word).trans ?_
    cases ofTokens text first rest <;> rfl

theorem ofText_empty (line : ofLine text = []) :
    ofText text = .untranslated text (.lineEnd "statement") := by
  rw [ofText]
  split
  · rfl
  · simp_all

theorem ifParts_within {rest thenPart : List Token} {condition : Expr}
    {elsePart : Option (List Token)}
    (parts : ifParts rest = .ok (condition, some (thenPart, elsePart))) :
    extent thenPart ≤ extent rest ∧
      ∀ ts ∈ elsePart, extent ts ≤ extent rest ∧ ts ⊆ rest := by
  unfold ifParts at parts
  split at parts
  · simp at parts
  · simp at parts
  · simp at parts
  · rename_i found last t ts read
    have left := Reader.suffix_of_run read
    have within := extent_le_of_suffix left
    have sizes := extent_splitElse (t :: ts)
    have both : (splitElse (t :: ts)).1 ++ (splitElse (t :: ts)).2 = t :: ts :=
      Token.splitAtTop_append ..
    split at parts
    · simp at parts
    · rename_i split
      simp only [split, Except.ok.injEq, Prod.mk.injEq, Option.some.injEq, Token.extent_cons,
        Token.extent_nil] at parts sizes within
      obtain ⟨-, rfl, rfl⟩ := parts
      exact ⟨by omega, by simp⟩
    · rename_i other behind _ split
      simp only [split, Except.ok.injEq, Prod.mk.injEq, Option.some.injEq, Token.extent_cons]
        at parts sizes within both
      obtain ⟨-, rfl, rfl⟩ := parts
      refine ⟨by omega, fun us mem => ?_⟩
      obtain rfl := Option.some.inj mem
      refine ⟨by omega, fun u inside => left.subset (List.mem_cons_of_mem _ ?_)⟩
      rw [← both]
      exact List.mem_append_right _ (List.mem_cons_of_mem _ inside)

end LineForm

end BasicSketch
