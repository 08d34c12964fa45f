import BasicSketch.Proofs.BuiltinSpelling
import BasicSketch.Proofs.DecimalTexts
import BasicSketch.Proofs.FixedFindings
import BasicSketch.Proofs.PlainLines
import BasicSketch.Proofs.ProgramProvenance
import BasicSketch.Proofs.SourceLines

set_option autoImplicit false

/-! The delays of a program and those that the linter sees. -/

namespace BasicSketch

open Token (ofLine wording Central)
open Text

namespace Statement

mutual

def delays : Statement → List (Nat × Expr)
  | .plain n a => a.delays.map (n, ·)
  | .inlineIf _ _ thenBranch => thenBranch.delays
  | .inlineIfElse _ _ thenBranch elseBranch => thenBranch.delays ++ elseBranch.delays
  | .every _ _ body => allDelays body

def allDelays : List Statement → List (Nat × Expr)
  | [] => []
  | first :: rest => first.delays ++ allDelays rest

end

end Statement

namespace Reading

def Holds (ls : List LogicalLine) (d : Nat × Expr) : Prop :=
  ∃ l ∈ ls, l.number = d.1 ∧ d.2 ∈ (LineForm.ofText l.text).delays

theorem Holds.mono {a b : List LogicalLine} {d : Nat × Expr} (holds : Holds a d) (within : a ⊆ b) :
    Holds b d :=
  holds.imp fun _ found => ⟨within found.1, found.2⟩

theorem holds_run : Always
    (fun s n f r => s.line = n → r.1.BranchesOnLine → ∀ d ∈ r.1.delays,
      d.1 = n ∧ d.2 ∈ f.delays ∨ Holds s.lines d)
    (fun s l r => r.1.BranchesOnLine → ∀ d ∈ r.1.delays, Holds (l :: s.lines) d)
    (fun s _ r =>
      Statement.AllBranchesOnLine r.1 → ∀ d ∈ Statement.allDelays r.1, Holds s.lines d) := by
  apply run_induction
  case leaf =>
    intro s n f a t leaf _ _ d mem
    cases leaf with
    | action =>
      obtain ⟨e, here, rfl⟩ := List.mem_map.1 mem
      exact .inl ⟨rfl, here⟩
    | _ => cases mem
  case every => exact fun s n interval r _ body _ placed d mem => .inr (body placed d mem)
  case inlineIf =>
    rintro s _ c f inner rfl placed d mem
    exact inner rfl placed.2 d mem
  case inlineIfElse =>
    rintro s _ c f g inner inner' rfl placed d mem
    obtain ⟨⟨-, number⟩, first, second⟩ := placed
    rw [(takes_run.form _ _ g).2] at number
    rcases List.mem_append.1 mem with here | there
    · exact (inner rfl first d here).imp_left fun found =>
        ⟨found.1, List.mem_append_left _ found.2⟩
    · rcases inner' rfl second d there with found | held
      · exact .inl ⟨found.1.trans number, List.mem_append_right _ found.2⟩
      · exact .inr (held.mono (lines_suffix_afterThen s f).subset)
  case danglingElse => intro s n text f _ _ _ d mem; cases mem
  case opens =>
    intro s l t r opens form placed d mem
    obtain ⟨lines, line, -⟩ := opens.kept
    rw [← lines]
    rcases form line placed d mem with found | held
    · exact ⟨l, List.mem_cons_self, found.1.symm, found.2⟩
    · exact held.mono (List.subset_cons_self l t.lines)
  case continues =>
    intro s l a t continues _ d mem
    have absent : a.delays = [] := by
      cases continues with
      | @ends body => cases body <;> rfl
      | @entry body _ _ read =>
        have owned := (BodyLine.from_entry read).2
        cases a <;> first | rfl | (cases body <;> cases owned)
      | unread => rfl
    rw [Statement.delays, absent] at mem
    cases mem
  case ended => intro s every _ _ d mem; cases mem
  case closed => intro s every l rest _ _ _ d mem; cases mem
  case cons =>
    intro s every l rest first r eq _ here _ inner inner' placed d mem
    rw [eq]
    rcases List.mem_append.1 mem with now | later
    · exact inner placed.1 d now
    · obtain ⟨⟨taken, lines, -⟩, -⟩ := takes_run.line { s with lines := rest } l
      rw [here] at lines
      refine (inner' placed.2 d later).mono fun x mem => List.mem_cons_of_mem l ?_
      have split : rest = taken ++ first.2.lines := lines
      rw [split]
      exact List.mem_append_right taken mem

end Reading

/-- Behind some word `Delay`, tokens of no known kind aside, stands the text or a parenthesis. -/
def Spelled (text : String) (ws : List (TokenKind × String)) : Prop :=
  ∃ before word after next, ws = before ++ word :: after ∧
    (word.1.isWord && sameWord word.2 "delay") = true ∧
    after.find? (·.1 != .unknown) = some next ∧
    (next = (.integer, text) ∨ next.1 = .symbol .leftParen)

namespace Spelled

variable {text : String} {ws : List (TokenKind × String)}

theorem append (spelled : Spelled text ws) (more : List (TokenKind × String)) :
    Spelled text (ws ++ more) := by
  obtain ⟨before, word, after, next, rfl, named, found, kind⟩ := spelled
  refine ⟨before, word, after ++ more, next, by simp, named, ?_, kind⟩
  rw [List.find?_append, found, Option.some_or]

theorem prepend (spelled : Spelled text ws) (more : List (TokenKind × String)) :
    Spelled text (more ++ ws) := by
  obtain ⟨before, word, after, next, rfl, rest⟩ := spelled
  exact ⟨more ++ before, word, after, next, by simp, rest⟩

theorem of_infix {ts us : List Token} (spelled : Spelled text (wording ts)) (inside : ts <:+: us) :
    Spelled text (wording us) := by
  obtain ⟨a, b, rfl⟩ := inside
  simpa only [wording, List.map_append] using (spelled.prepend (wording a)).append (wording b)

end Spelled

theorem central_find :
    Central fun ws : List (TokenKind × String) => ws.find? (·.1 != .unknown) where
  first _ _ := rfl
  last _ ws := by simp [List.find?_append]

theorem central_spelled (text : String) : Central (Spelled text) where
  first other ws := by
    refine propext ⟨fun spelled => ?_, fun spelled => spelled.prepend [_]⟩
    obtain ⟨before, word, after, next, eq, named, rest⟩ := spelled
    cases before with
    | nil =>
      obtain ⟨rfl, -⟩ := List.cons.inj eq
      cases named
    | cons _ before => exact ⟨before, word, after, next, (List.cons.inj eq).2, named, rest⟩
  last other ws := by
    refine propext ⟨fun spelled => ?_, fun spelled => spelled.append [_]⟩
    obtain ⟨before, word, after, next, eq, named, found, kind⟩ := spelled
    rcases List.eq_nil_or_concat after with rfl | ⟨after, u, rfl⟩
    · cases found
    · rw [List.concat_eq_append] at eq found
      rw [← List.cons_append, ← List.append_assoc] at eq
      obtain ⟨front, rest⟩ := List.append_inj' eq rfl
      obtain rfl := (List.cons.inj rest).1
      rw [central_find.last] at found
      exact ⟨before, word, after, next, front, named, found, kind⟩

namespace Token

theorem ofLine_digits {text : String} {v : Nat} (read : readDigits? text.toList = some v) :
    ofLine text = [⟨.integer, "", text, 0⟩] := by
  unfold readDigits? at read
  split at read
  · cases read
  · rename_i digits
    simp only [Bool.or_eq_true, List.isEmpty_iff, Bool.not_eq_true', not_or] at digits
    have laid := Laid.bare 0 (reads_digits digits.1 (by simpa using digits.2)) (.ended _)
    rw [List.append_nil, String.ofList_toList] at laid
    exact (laid_ofLine text).unique laid rfl

variable {line : String} {ts : List Token} {e : Expr} {v : Nat}

theorem find?_arguments {endColumn : Nat} (inside : ts <:+: ofLine line)
    (read : arguments endColumn ts = .ok [e]) (digits : readDigits? e.text.toList = some v) :
    (wording ts).find? (·.1 != .unknown) = some (.integer, e.text) := by
  unfold arguments at read
  split at read
  · cases read
  cases checked : checkBalanced ts with
  | error e => simp [checked, bind, Except.bind] at read
  | ok _ =>
    obtain ⟨head, more, eq, here, ⟨tail, rfl⟩, -⟩ :=
      splitCommas_pieces endColumn (balanced_of_check checked)
    have read : (splitCommas endColumn 0 (head.1 ++ tail)).mapM argument = .ok [e] := by
      simpa [checked, bind, Except.bind] using read
    have piece : e = Expr.ofText (slice head.1) := by
      rw [eq, List.mapM_cons] at read
      cases one : argument head with
      | error _ => simp [one, bind, Except.bind] at read
      | ok other =>
        cases rest : more.mapM argument with
        | error _ => simp [one, rest, bind, Except.bind] at read
        | ok es =>
          obtain ⟨rfl, -⟩ : other = e ∧ es = [] := by
            simpa [one, rest, bind, Except.bind, pure, Except.pure] using read
          unfold argument at one
          split at one
          · cases one
          · exact (Except.ok.inj one).symm
    have seen := central_find.trim_slice ((List.prefix_append head.1 tail).isInfix.trans inside)
    have text : trim (slice head.1) = e.text := by rw [piece, Expr.ofText]
    rw [text, ofLine_digits digits] at seen
    rw [wording, List.map_append, List.find?_append]
    exact Option.some_or.symm ▸ (congrArg (Option.or · _) seen.symm)

theorem find?_callArguments (inside : ts <:+: ofLine line) (read : callArguments ts = .ok [e])
    (digits : readDigits? e.text.toList = some v) :
    ∃ next, (wording ts).find? (·.1 != .unknown) = some next ∧
      (next = (.integer, e.text) ∨ next.1 = .symbol .leftParen) := by
  unfold callArguments at read
  split at read
  · cases read
  · rename_i t more
    by_cases paren : t.kind = .symbol .leftParen
    · exact ⟨(t.kind, t.text), by simp [wording, paren], .inr paren⟩
    · rw [if_neg (by simpa using paren)] at read
      exact ⟨_, find?_arguments inside read digits, .inl rfl⟩

end Token

theorem LineForm.spelled_ofText {line : String} {e : Expr} {v : Nat}
    (mem : e ∈ (ofText line).delays) (digits : readDigits? e.text.toList = some v) :
    Spelled e.text (wording (ofLine line)) := by
  -- a branch is cut out of its line, blanks at its ends dropped
  have branch {line : String} {part : List Token} (inside : part <:+: ofLine line)
      (spelled : Spelled e.text (wording (ofLine (branchText part)))) :
      Spelled e.text (wording (ofLine line)) := by
    rw [branchText, (central_spelled e.text).trim_slice inside] at spelled
    exact spelled.of_infix inside
  fun_induction ofText line with
  | case1 | case2 | case3 | case4 | case5 | case7 | case10 => cases mem
  | case6 _ _ _ whole _ _ _ _ _ read thenPart _ parts ih =>
    have inside := infix_splitElse whole read parts
    rw [List.append_nil] at inside
    exact branch inside (ih mem)
  | case8 _ _ _ whole _ _ _ _ _ read thenPart else_ elsePart _ _ parts ih ih' =>
    have inside := infix_splitElse whole read parts
    rcases List.mem_append.1 mem with here | there
    · exact branch ((List.prefix_append thenPart _).isInfix.trans inside) (ih here)
    · have last := (List.suffix_cons else_ elsePart).trans (List.suffix_append thenPart _)
      exact branch (last.isInfix.trans inside) (ih' there)
  | case9 line first rest whole _ f read =>
    rcases (known_of_read whole read).2.2 with absent | ⟨word, rest, _, eq, one, named, listed⟩
    · rw [absent] at mem
      cases mem
    · rw [one, List.mem_singleton] at mem
      subst mem
      have after : rest <:+: ofLine line := eq ▸ (List.suffix_cons word rest).isInfix
      obtain ⟨next, found, kind⟩ := Token.find?_callArguments after listed digits
      rw [eq]
      exact ⟨[], _, _, next, rfl, named, found, kind⟩

namespace LogicalLine

theorem exists_of_mem_join {ls : List String} {number : Nat} {l : LogicalLine}
    (unbroken : ∀ line ∈ ls, continued? (trim (stripComment line)) = none)
    (mem : l ∈ join number none ls) :
    ∃ k line, ls[k]? = some line ∧ l.number = number + k ∧ l.text = trim (stripComment line) := by
  induction ls generalizing number with
  | nil => cases mem
  | cons line rest ih =>
    obtain ⟨here, later⟩ := List.forall_mem_cons.1 unbroken
    have whole : join number none (line :: rest) =
        finish number (trim (stripComment line)) ++ join (number + 1) none rest := by
      rw [join_cons, show extended number none line = (number, trim (stripComment line)) from rfl]
      simp only [here]
    rw [whole] at mem
    rcases List.mem_append.1 mem with now | after
    · refine ⟨0, line, rfl, (number_of_mem_finish now).trans (Nat.add_zero number).symm, ?_⟩
      simp only [finish, trim_trim] at now
      split at now
      · cases now
      · rw [List.mem_singleton.1 now]
    · obtain ⟨k, line, found, at_, text⟩ := ih later after
      exact ⟨k + 1, line, found, by omega, text⟩

end LogicalLine

namespace Lint

def Reported (source : String) (n : Nat) : Prop :=
  ∃ f ∈ findings source, f.rule = .blockingDelay ∧ f.line = n

theorem reported_iff {source line : String} {n : Nat}
    (free : ∀ line ∈ lines source, Undirected line) (here : lineAt? source n = some line) :
    Reported source n ↔
      ∃ d, delay? (codeTokens line) = some d ∧ blockingFrom ≤ d.milliseconds := by
  have one (l : CodeLine) : (∃ f ∈ blockingDelays l, f.line = n) ↔
      l.number = n ∧ ∃ d, delay? l.tokens = some d ∧ blockingFrom ≤ d.milliseconds := by
    simp only [blockingDelays, List.mem_filterMap, Option.mem_toList, Option.ite_none_right_eq_some,
      Option.some.injEq]
    constructor
    · rintro ⟨_, ⟨d, found, long, rfl⟩, rfl⟩
      exact ⟨rfl, d, found, long⟩
    · rintro ⟨rfl, d, found, long⟩
      exact ⟨_, ⟨d, found, long, rfl⟩, rfl⟩
  have listed : Reported source n ↔
      ∃ l ∈ CodeLine.ofText source, ∃ f ∈ blockingDelays l, f.line = n := by
    have rule (f : Finding) : f ∈ findings source ∧ f.rule = .blockingDelay ↔
        ∃ l ∈ CodeLine.ofText source, f ∈ blockingDelays l := by
      rw [findings_of_undirected free, ← List.mem_flatMap, ← (ofRule_eq _).2.1, ofRule]
      simp
    simp only [Reported, ← and_assoc, rule]
    constructor
    · rintro ⟨f, ⟨l, mem, found⟩, number⟩
      exact ⟨l, mem, f, found, number⟩
    · rintro ⟨l, mem, f, found, number⟩
      exact ⟨f, ⟨l, mem, found⟩, number⟩
  rw [listed]
  simp only [one, CodeLine.ofText, List.mem_mapIdx]
  unfold lineAt? at here
  split at here
  · cases here
  have before : n - 1 + 1 = n := by omega
  constructor
  · rintro ⟨_, ⟨k, bound, rfl⟩, number, seen⟩
    dsimp only at number seen
    obtain rfl : k = n - 1 := Nat.eq_sub_of_add_eq number
    rw [List.getElem?_eq_getElem bound] at here
    rw [← Option.some.inj here]
    exact seen
  · intro seen
    obtain ⟨bound, eq⟩ := List.getElem?_eq_some_iff.1 here
    exact ⟨_, ⟨n - 1, bound, rfl⟩, before, by rwa [eq]⟩

theorem zip_tail_append {α : Type} (front : List α) (t : α) (rest : List α) :
    (front ++ t :: rest).zip (front ++ t :: rest).tail =
      (front ++ [t]).zip (front ++ [t]).tail ++ (t :: rest).zip rest := by
  induction front with
  | nil => rfl
  | cons s front ih =>
    cases front with
    | nil => rfl
    | cons r front => exact congrArg ((s, r) :: ·) ih

theorem delay?_of_first {before after : List Token} {t u : Token} {v : Nat}
    (named : t.isNamed "delay" = true) (kind : u.kind = .integer)
    (digits : readDigits? u.text.toList = some v) (fits : v ≤ maxLong)
    (first : delay? (before ++ [t]) = none) :
    delay? (before ++ t :: u :: after) = some ⟨t.start, v⟩ := by
  have value : readUnsigned? maxLong u.text = some v := by
    unfold readUnsigned?
    split
    · rename_i signed
      rw [signed] at digits
      cases digits
    · rw [readWithin?, digits]
      simpa using fits
  rw [delay?, zip_tail_append, List.findSome?_append, ← delay?, first]
  simp [named, kind, value]

theorem blocking_delay_seen_first {source : String}
    (free : ∀ line ∈ lines source, Undirected line)
    (unbroken : ∀ line ∈ lines source,
      LogicalLine.continued? (trim (LogicalLine.stripComment line)) = none)
    (placed : Statement.AllBranchesOnLine (Program.ofSource source).statements)
    {n v : Nat} {e : Expr}
    (delay : (n, e) ∈ Statement.allDelays (Program.ofSource source).statements)
    (literal : readDigits? e.text.toList = some v) (long : blockingFrom ≤ v) :
    ∃ line before t after u, lineAt? source n = some line ∧
      codeTokens line = before ++ t :: after ∧ t.isNamed "delay" = true ∧
      after.find? (·.kind != .unknown) = some u ∧
      (u.kind = .integer ∧ u.text = e.text ∨ u.kind = .symbol .leftParen) ∧
      (u.kind = .integer → after.head? = some u → v ≤ maxLong → delay? (before ++ [t]) = none →
        Reported source n) ∧
      (Reported source n ↔
        ∃ d, delay? (codeTokens line) = some d ∧ blockingFrom ≤ d.milliseconds) := by
  obtain ⟨l, mem, (rfl : l.number = n), held⟩ :=
    Reading.holds_run.lines (Reading.ofLines (LogicalLine.ofSource source)) none placed _ delay
  obtain ⟨k, line, found, at_, text⟩ := LogicalLine.exists_of_mem_join unbroken mem
  have here : lineAt? source l.number = some line := by
    rw [lineAt?, at_, if_neg (by omega), Nat.add_sub_cancel_left]
    exact found
  have spelled := LineForm.spelled_ofText held literal
  rw [text, (central_spelled e.text).trim] at spelled
  obtain ⟨_, _, _, next, eq, named, after, kind⟩ := spelled
  obtain ⟨before, rest, tokens, rfl, eq'⟩ := List.map_eq_append_iff.1 eq
  obtain ⟨t, after, rfl, rfl, rfl⟩ := List.map_eq_cons_iff.1 eq'
  rw [List.find?_map, Option.map_eq_some_iff] at after
  obtain ⟨u, first, rfl⟩ := after
  have one := reported_iff free here
  refine ⟨line, before, t, after, u, here, tokens, named, first, ?_, ?_, one⟩
  · simpa using kind
  · intro integer next fits absent
    obtain ⟨more, rfl⟩ : ∃ more, after = u :: more := by
      cases after with
      | nil => cases next
      | cons _ more => exact ⟨more, by rw [Option.some.inj next]⟩
    have same : u.text = e.text := by
      rcases kind with same | paren
      · exact (Prod.mk.inj same).2
      · exact absurd (integer.symm.trans paren) (by simp)
    refine one.2 ⟨⟨t.start, v⟩, ?_, long⟩
    rw [codeTokens, tokens]
    exact delay?_of_first named integer (same ▸ literal) fits absent

theorem blocking_delay_seen_first_commented : Reported "x = 1\nDelay 250 ' wait" 2 := by
  have read := Program.statements_ofSource
    (show (LogicalLine.ofSource "x = 1\nDelay 250 ' wait").all (·.plain?.isSome) = true by
      decide +kernel)
  have placed (ls : List LogicalLine) :
      Statement.AllBranchesOnLine (ls.filterMap LogicalLine.plain?) := by
    induction ls with
    | nil => trivial
    | cons l ls ih =>
      rw [List.filterMap_cons]
      split
      · exact ih
      · rename_i st plain
        refine ⟨?_, ih⟩
        unfold LogicalLine.plain? at plain
        split at plain
        · split at plain
          · cases plain
          · obtain rfl := Option.some.inj plain
            trivial
        · cases plain
  obtain ⟨line, _, _, _, _, here, -, -, -, -, -, reported⟩ := @blocking_delay_seen_first
    "x = 1\nDelay 250 ' wait" (fun line mem => undirected_of_not_mem (by revert line; decide))
    (by decide) (read ▸ placed _) 2 250 ⟨"250"⟩ (by rw [read]; decide +kernel) (by decide)
    (by decide)
  obtain rfl : "Delay 250 ' wait" = line := Option.some.inj here
  exact reported.2 ⟨⟨0, 250⟩, rfl, by decide⟩

end Lint

end BasicSketch
