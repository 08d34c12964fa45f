import BasicSketch.Proofs.DecimalTexts
import BasicSketch.Proofs.Joining
import BasicSketch.Proofs.Reading
import BasicSketch.Proofs.TwoWritings

set_option autoImplicit false

/-!
Counting loops. A line that says from where to where a variable counts, and in what steps, is read
as such a loop, with the texts that stand on the line, and the loop is written with them.
-/

namespace BasicSketch

open Token Text

/-! Steps. -/

theorem toList_negSucc (n : Nat) :
    (toString (Int.negSucc n)).toList = '-' :: (toString (n + 1)).toList := by
  rw [show toString (Int.negSucc n) = "-" ++ (n + 1).repr by unfold toString; rfl,
    String.toList_append, ← Nat.toString_eq_repr]
  rfl

theorem isDecimal_int (k : Int) : IsDecimal (toString k) := by
  cases k with
  | ofNat n => exact isDecimal_of_readDigits? (readDigits?_nat n) (.inl rfl)
  | negSucc n => exact isDecimal_of_readDigits? (readDigits?_nat (n + 1)) (.inr (toList_negSucc n))

theorem IsDecimal.standalone {text : String} (decimal : IsDecimal text) : Standalone text := by
  have known : ∀ t ∈ ofLine text, t.kind ≠ .unknown ∧ t.nesting = .flat := by
    intro t mem
    rcases decimal.kind_of_mem t mem with kind | kind <;> simp [nesting, kind]
  refine ⟨decimal.tight, ?_, balanced_of_flat fun t mem => (known t mem).2, fun t mem => ?_⟩
  · rintro rfl
    obtain ⟨d, full, -, absent | filled⟩ := decimal
    · exact full absent.symm
    · cases filled
  · simp [isUnclosed, (known t mem).1]

theorem head?_nat (n : Nat) : ∃ c more, (toString n).toList = c :: more ∧ c ≠ '+' ∧ c ≠ '-' := by
  have digits := isDigit_of_mem_nat n
  cases chars : (toString n).toList with
  | nil =>
    have read := readDigits?_nat n
    rw [chars] at read
    cases read
  | cons c more =>
    refine ⟨c, more, rfl, ?_, ?_⟩ <;> rintro rfl <;> rw [chars] at digits <;>
      exact absurd (digits _ List.mem_cons_self) (by decide)

theorem readSigned?_toString {k : Int} (least : minSigned ≤ k) (most : k ≤ maxSigned) :
    readSigned? (toString k) = some k := by
  have within : (some k).filter (fun n => minSigned ≤ n && n ≤ maxSigned) = some k := by
    simp [least, most]
  unfold readSigned?
  refine Eq.trans (congrArg (Option.filter _) ?_) within
  cases k with
  | ofNat n =>
    -- the sign is looked for first, and a digit is none
    obtain ⟨c, more, chars, plus, minus⟩ := head?_nat n
    rw [show (toString (Int.ofNat n)).toList = (toString n).toList from rfl]
    split <;> rename_i eq
    · exact absurd (List.cons.inj (chars.symm.trans eq)).1 plus
    · exact absurd (List.cons.inj (chars.symm.trans eq)).1 minus
    · rw [readDigits?_nat]
      rfl
  | negSucc n =>
    simp only [toList_negSucc, readDigits?_nat]
    rfl

theorem Expr.integer?_toString {k : Int} (least : minSigned ≤ k) (most : k ≤ maxSigned) :
    Expr.integer? ⟨toString k⟩ = some k := by
  unfold Expr.integer?
  split
  · rename_i eq
    cases k with
    | ofNat n =>
      obtain ⟨c, more, chars, plus, -⟩ := head?_nat n
      exact absurd (List.cons.inj (chars.symm.trans eq)).1 plus
    | negSucc n =>
      rw [toList_negSucc] at eq
      cases eq
  · exact readSigned?_toString least most

/-! Reading. -/

/-- What a line says behind the last value. -/
def stepText : Option String → String
  | none => ""
  | some k => s!" Step {k}"

def StepBehind : Option String → List Token → Prop
  | none, ts => ts = []
  | some k, ts => ∃ step us, ts = step :: us ∧ step.kind = .keyword .Step ∧ Stands k us

/-- The tokens of a line that counts: `For`, the counter, `=`, the first value, `To`, the last
value, and the step. -/
def Counts (v a b : String) (step : Option String) (ts : List Token) : Prop :=
  ∃ for_ counter equals first to_ last rest,
    ts = for_ :: counter :: equals :: (first ++ to_ :: (last ++ rest)) ∧
      for_.kind = .keyword .For ∧ counter.kind = .identifier ∧ counter.text = v ∧
      equals.kind = .symbol .equals ∧ Stands a first ∧ to_.kind = .keyword .To ∧ Stands b last ∧
      StepBehind step rest

section Line

variable {v a b : String} {step : Option String}

theorem lays_step (steps : ∀ k ∈ step, Standalone k) :
    Lays (stepText step).toList (StepBehind step) := by
  cases step with
  | none => exact lays_end
  | some k =>
    have whole : Whole "Step" := by decide +kernel
    have number := Lays.piece (steps k rfl).whole isGap_blank (by simp) lays_end
    have all := Lays.piece whole isGap_blank (breaks_blank _) number
    have chars : (stepText (some k)).toList =
        [' '] ++ ("Step".toList ++ ([' '] ++ (k.toList ++ []))) := by
      simp [stepText]
    rw [chars]
    intro start
    obtain ⟨_, laid, _, _, rfl, isStep, us, _, rfl, isNumber, rfl⟩ := all start
    obtain ⟨word, rfl, isStep, -⟩ := isStep.single
      (show (ofLine "Step").map Token.kind = [.keyword .Step] by decide +kernel)
    exact ⟨_, laid, word, us, by simp, isStep, isNumber⟩

theorem counts_line (name : IsIdentifier v) (first : Standalone a) (last : Standalone b)
    (steps : ∀ k ∈ step, Standalone k) :
    Counts v a b step (ofLine (s!"For {v} = {a} To {b}" ++ stepText step)) := by
  have stops : ∀ c ∈ (stepText step).toList.head?, c ∈ breaks := by
    cases step with
    | none => simp [stepText]
    | some k =>
      simp [stepText]
      decide
  have whole : Whole "For" ∧ Whole "=" ∧ Whole "To" := by decide +kernel
  -- the line is laid from its end to its beginning, piece by piece
  have fromLast := Lays.piece last.whole isGap_blank stops (lays_step steps)
  have fromTo := Lays.piece whole.2.2 isGap_blank (breaks_blank _) fromLast
  have fromFirst := Lays.piece first.whole isGap_blank (breaks_blank _) fromTo
  have fromEquals := Lays.piece whole.2.1 isGap_blank (breaks_blank _) fromFirst
  have fromName := Lays.piece name.whole isGap_blank (breaks_blank _) fromEquals
  have all := Lays.piece whole.1 isGap_none (breaks_blank _) fromName
  have chars : (s!"For {v} = {a} To {b}" ++ stepText step).toList = [] ++ ("For".toList ++
      ([' '] ++ (v.toList ++ ([' '] ++ ("=".toList ++ ([' '] ++ (a.toList ++ ([' '] ++
        ("To".toList ++ ([' '] ++ (b.toList ++ (stepText step).toList))))))))))) := by
    simp
  rw [← chars] at all
  obtain ⟨_, _, whole, isFor, _, _, rfl, isName, _, _, rfl, isEquals, us, _, rfl, isFirst,
    _, _, rfl, isTo, vs, ws, rfl, isLast, behind⟩ := all.tokens
  have kinds : (ofLine "For").map Token.kind = [.keyword .For] ∧
      (ofLine "=").map Token.kind = [.symbol .equals] ∧
      (ofLine "To").map Token.kind = [.keyword .To] := by
    decide +kernel
  obtain ⟨for_, rfl, isFor, -⟩ := isFor.single kinds.1
  obtain ⟨counter, rfl, isName, text⟩ := isName.single name.kinds
  obtain ⟨equals, rfl, isEquals, -⟩ := isEquals.single kinds.2.1
  obtain ⟨to_, rfl, isTo, -⟩ := isTo.single kinds.2.2
  exact ⟨for_, counter, equals, us, to_, vs, ws, whole, isFor, isName, text, isEquals, isFirst,
    isTo, isLast, behind⟩

theorem ofText_counting {text : String} (line : Counts v a b step (ofLine text))
    (first : Standalone a) (last : Standalone b) (steps : ∀ k ∈ step, Standalone k)
    (toFree : TopFree (· == .keyword .To) (ofLine a))
    (stepFree : TopFree (· == .keyword .Step) (ofLine b)) :
    LineForm.ofText text = .action (.forLoop v ⟨a⟩ ⟨b⟩ (step.map Expr.mk)) := by
  obtain ⟨for_, counter, equals, us, to_, vs, ws, line, isFor, isName, rfl, isEquals, isFirst, isTo,
    isLast, behind⟩ := line
  have word : counter.isWord = true := by simp [isWord, isName, TokenKind.isWord]
  have noEach : (counter.kind == .keyword .Each) = false := by simp [isName]
  have stops : ∀ t ∈ ws.head?, (t.kind == .keyword .Step) = true := by
    cases step with
    | none =>
      obtain rfl : ws = [] := behind
      simp
    | some k =>
      obtain ⟨word, _, rfl, isStep, -⟩ := behind
      simpa using isStep
  have read : Phrase.forLoop.run (counter :: equals :: (us ++ to_ :: (vs ++ ws))) =
      .ok (.forLoop counter.text ⟨a⟩ ⟨b⟩ (step.map Expr.mk), []) := by
    rw [Phrase.forLoop, Reader.run_bind, Reader.run_accept, noEach]
    simp only [Bool.false_eq_true, if_false]
    rw [Reader.run_bind, Reader.run_name word]
    dsimp only
    rw [Reader.run_bind, Reader.run_expect isEquals]
    dsimp only
    rw [Reader.run_bind, Reader.run_exprUntil_stands first isFirst toFree (by simp [isTo])]
    dsimp only
    rw [Reader.run_bind, Reader.run_expect isTo]
    dsimp only
    rw [Reader.run_bind, Reader.run_exprUntil_stands last isLast stepFree stops]
    dsimp only
    -- what is left is the step, if there is one
    cases step with
    | none =>
      obtain rfl : ws = [] := behind
      rfl
    | some k =>
      obtain ⟨word, ks, rfl, isStep, isNumber⟩ := behind
      have number := Reader.run_restExpr_stands (steps k rfl) isNumber "step value"
      have mapped : (some <$> Reader.restExpr "step value" : Reader (Option Expr)) =
        Reader.restExpr "step value" >>= fun e => pure (some e) := rfl
      simp [Reader.run_accept, isStep, mapped, number]
  rw [LineForm.ofText_other line (by simp [isFor])]
  simp [LineForm.ofTokens, isFor, LineForm.ofKeyword, LineForm.ofReader, Reader.value, read,
    Except.map]

end Line

/-! Writing. -/

namespace Sketch

variable {s : Sketch} {a v : String}

variable {b : String} (first : s.value ⟨a⟩ = a) (last : s.value ⟨b⟩ = b)
  (fresh : s.isDeclared v = false)

include first last fresh

theorem place_counting (n : Nat) : s.place (.plain n (.forLoop v ⟨a⟩ ⟨b⟩ none)) =
    (s.emit s!"for (int {v} = {a}; {v} <= {b}; {v} += 1) \x7b").openBlock .counted := by
  have one : Int.repr 1 = "1" := rfl
  rw [place, perform]
  unfold emitFor
  refine congrArg (fun header => (s.emit header).openBlock .counted) (String.toList_injective ?_)
  simp [first, last, fresh, one]

theorem place_stepping {step : Expr} {k : Int} (read : step.integer? = some k) (n : Nat) :
    s.place (.plain n (.forLoop v ⟨a⟩ ⟨b⟩ (some step))) =
      let compare := if k < 0 then ">=" else "<="
      (s.emit s!"for (int {v} = {a}; {v} {compare} {b}; {v} += {k}) \x7b").openBlock .counted := by
  rw [place, perform]
  unfold emitFor
  simp [first, last, fresh, read]

omit first last fresh in
theorem codeHere_counting {rest : String} :
    ((s.emit ("for (int " ++ rest ++ ") \x7b")).openBlock .counted).codeHere =
      s.codeHere ++ ["for (int " ++ rest ++ ") \x7b"] := by
  have tight : trim ("for (int " ++ rest ++ ") \x7b") = "for (int " ++ rest ++ ") \x7b" :=
    tight_of_ends (((begins_ofList rfl).append _).append _) ((ends_ofList rfl).after _)
      (by decide) (by decide)
  exact codeHere_push tight s s.depth

end Sketch

/-- A loop that counts, from the line to the code. -/
theorem for_line_counts {v a b : String} (name : IsIdentifier v) (first : Standalone a)
    (last : Standalone b) (toFree : TopFree (· == .keyword .To) (ofLine a))
    (stepFree : TopFree (· == .keyword .Step) (ofLine b)) {r : Reading} (outside : r.body = none)
    {s : Sketch} (plainFirst : Cpp.Plain s.symbols [] (ofLine a))
    (plainLast : Cpp.Plain s.symbols [] (ofLine b)) (fresh : s.isDeclared v = false) (n : Nat) :
    (let loop := s!"for (int {v} = {a}; {v} <= {b}; {v} += 1) \x7b"
      let st : Statement := .plain n (.forLoop v ⟨a⟩ ⟨b⟩ none)
      (r.lineStatement ⟨n, s!"For {v} = {a} To {b}"⟩).1.1 = st ∧
      s.place st = (s.emit loop).openBlock .counted ∧
      (s.place st).codeHere = s.codeHere ++ [loop]) ∧
    ∀ k : Int, minSigned ≤ k → k ≤ maxSigned →
      let compare := if k < 0 then ">=" else "<="
      let loop := s!"for (int {v} = {a}; {v} {compare} {b}; {v} += {k}) \x7b"
      let st : Statement := .plain n (.forLoop v ⟨a⟩ ⟨b⟩ (some ⟨toString k⟩))
      (r.lineStatement ⟨n, s!"For {v} = {a} To {b} Step {k}"⟩).1.1 = st ∧
      s.place st = (s.emit loop).openBlock .counted ∧
      (s.place st).codeHere = s.codeHere ++ [loop] := by
  have read {step : Option String} (steps : ∀ k ∈ step, Standalone k) :
      (r.lineStatement ⟨n, s!"For {v} = {a} To {b}" ++ stepText step⟩).1.1 =
        .plain n (.forLoop v ⟨a⟩ ⟨b⟩ (step.map Expr.mk)) := by
    have line := counts_line name first last steps
    have form := ofText_counting line first last steps toFree stepFree
    rw [Reading.lineStatement_opens (.free outside), form, Reading.statement_action]
  have from_ := Sketch.value_plain first.tight plainFirst
  have to_ := Sketch.value_plain last.tight plainLast
  have counted := Sketch.place_counting from_ to_ fresh n
  have stepping (k : Int) (least : minSigned ≤ k) (most : k ≤ maxSigned) :=
    Sketch.place_stepping from_ to_ fresh (Expr.integer?_toString least most) n
  refine ⟨⟨?_, counted, ?_⟩, fun k least most => ⟨?_, stepping k least most, ?_⟩⟩
  · have plain := @read none (by simp)
    rwa [stepText, String.append_empty] at plain
  · rw [counted]
    simpa [String.append_assoc] using @Sketch.codeHere_counting s
      (v ++ " = " ++ a ++ "; " ++ v ++ " <= " ++ b ++ "; " ++ v ++ " += 1")
  · have number : ∀ t ∈ some (toString k), Standalone t := fun _ eq =>
      Option.some.inj eq ▸ (isDecimal_int k).standalone
    have stepped := read number
    simpa [stepText, String.append_assoc] using stepped
  · rw [stepping k least most]
    simpa [String.append_assoc] using @Sketch.codeHere_counting s (v ++ " = " ++ a ++ "; " ++ v ++
      " " ++ (if k < 0 then ">=" else "<=") ++ " " ++ b ++ "; " ++ v ++ " += " ++ toString k)

/-- Words of the line that stand in brackets and in quotes, and the least step. -/
theorem for_line_counts_down :
    let v := "i"
    let a := "(x To y) + \x22a To b\x22"
    let b := "m[2 Step 1]"
    let k := toString minSigned
    let compare := ">="
    let s := Sketch.empty .standard
    (IsIdentifier v ∧ Standalone a ∧ Standalone b ∧ TopFree (· == .keyword .To) (ofLine a) ∧
      TopFree (· == .keyword .Step) (ofLine b) ∧ Cpp.Plain s.symbols [] (ofLine a) ∧
      Cpp.Plain s.symbols [] (ofLine b) ∧ s.isDeclared v = false) ∧
    k = "-9223372036854775808" ∧
    let loop := s!"for (int {v} = {a}; {v} {compare} {b}; {v} += {k}) \x7b"
    let st : Statement := .plain 7 (.forLoop v ⟨a⟩ ⟨b⟩ (some ⟨k⟩))
    ((Reading.ofLines []).lineStatement ⟨7, s!"For {v} = {a} To {b} Step {k}"⟩).1.1 = st ∧
    s.place st = (s.emit loop).openBlock .counted ∧
    (s.place st).codeHere = s.codeHere ++ [loop] := by
  intro v a b k compare s
  have fits : IsIdentifier v ∧ Standalone a ∧ Standalone b ∧
      TopFree (· == .keyword .To) (ofLine a) ∧ TopFree (· == .keyword .Step) (ofLine b) ∧
      Cpp.Plain s.symbols [] (ofLine a) ∧ Cpp.Plain s.symbols [] (ofLine b) ∧
      s.isDeclared v = false := by
    decide +kernel
  obtain ⟨name, first, last, toFree, stepFree, plainFirst, plainLast, fresh⟩ := id fits
  have counted := @for_line_counts v a b name first last toFree stepFree (.ofLines []) rfl s
    plainFirst plainLast fresh 7
  exact ⟨fits, by decide +kernel, counted.2 minSigned (by decide) (by decide)⟩

end BasicSketch
