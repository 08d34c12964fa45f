import BasicSketch.Proofs.LogicalLines
import BasicSketch.Proofs.TokenTable

set_option autoImplicit false

/-!
A text in lower case has the same logical lines and the same tokens as the text itself, each of them
in lower case.
-/

namespace BasicSketch

namespace Text

def capitals : List Char := (List.range' 65 26).map Char.ofNat

variable {c d : Char}

theorem mem_capitals (changes : c.toLower ≠ c) : c ∈ capitals := by
  unfold Char.toLower at changes
  split at changes
  · rename_i between
    have least : 65 ≤ c.toNat := UInt32.le_iff_toNat_le.1 between.1
    have most : c.toNat ≤ 90 := UInt32.le_iff_toNat_le.1 between.2
    exact List.mem_map.2 ⟨c.toNat, by rw [List.mem_range'_1]; omega, Char.ofNat_toNat c⟩
  · exact absurd rfl changes

def Caseless {α : Type} (p : Char → α) : Prop := ∀ c, p c.toLower = p c

theorem Caseless.comp_toLower {α : Type} {p : Char → α} (caseless : Caseless p) :
    p ∘ Char.toLower = p :=
  funext caseless

theorem caseless_of_capitals {α : Type} [DecidableEq α] {p : Char → α}
    (letters : (capitals.all fun c => p c.toLower = p c) = true) : Caseless p := by
  intro c
  by_cases same : c.toLower = c
  · rw [same]
  · exact of_decide_eq_true (List.all_eq_true.1 letters c (mem_capitals same))

theorem isAlpha_capitals (capital : c ∈ capitals) :
    c.isAlpha = true ∧ c.toLower.isAlpha = true := by
  have letters : (capitals.all fun c => c.isAlpha && c.toLower.isAlpha) = true := by decide
  exact Bool.and_eq_true_iff.1 (List.all_eq_true.1 letters c capital)

theorem caseless_toLower : Caseless Char.toLower := caseless_of_capitals (by decide)

theorem caseless_isAlpha : Caseless Char.isAlpha := caseless_of_capitals (by decide)

theorem caseless_isDigit : Caseless Char.isDigit := caseless_of_capitals (by decide)

theorem caseless_isNameChar : Caseless isNameChar := caseless_of_capitals (by decide)

theorem caseless_isBlank : Caseless isBlank := caseless_of_capitals (by decide)

theorem toLower_eq_iff (plain : d.isAlpha = false) : c.toLower = d ↔ c = d := by
  by_cases same : c.toLower = c
  · rw [same]
  · obtain ⟨here, lower⟩ := isAlpha_capitals (mem_capitals same)
    constructor
    · rintro rfl
      exact absurd lower (by rw [plain]; decide)
    · rintro rfl
      exact absurd here (by rw [plain]; decide)

theorem ne_cons_toLower {cs : List Char} (plain : d.isAlpha = false)
    (other : ∀ rest, cs = d :: rest → False) (rest : List Char) :
    cs.map Char.toLower = d :: rest → False := by
  intro split
  obtain ⟨c, more, rfl, same, -⟩ := List.map_eq_cons_iff.1 split
  obtain rfl := (toLower_eq_iff plain).1 same
  exact other more rfl

theorem toLower_eq_self (plain : c.isAlpha = false) : c.toLower = c :=
  (toLower_eq_iff plain).2 rfl

theorem toLower_beq (plain : d.isAlpha = false) (c : Char) : (c.toLower == d) = (c == d) := by
  rw [Bool.eq_iff_iff, beq_iff_eq, beq_iff_eq]
  exact toLower_eq_iff plain

theorem toLower_either {a b : Char}
    (letters : (capitals.all fun c =>
      (c.toLower == a || c.toLower == b) = (c == a || c == b)) = true) (c : Char) :
    (c.toLower == a || c.toLower == b) = (c == a || c == b) :=
  caseless_of_capitals (p := fun c => c == a || c == b) letters c

theorem takeWhile_toLower {p : Char → Bool} (caseless : Caseless p) (cs : List Char) :
    (cs.map Char.toLower).takeWhile p = (cs.takeWhile p).map Char.toLower := by
  rw [List.takeWhile_map, caseless.comp_toLower]

theorem dropBlanks_toLower (cs : List Char) :
    dropBlanks (cs.map Char.toLower) = (dropBlanks cs).map Char.toLower := by
  rw [dropBlanks, List.dropWhile_map, caseless_isBlank.comp_toLower, dropBlanks]

theorem dropBlanksEnd_toLower (cs : List Char) :
    dropBlanksEnd (cs.map Char.toLower) = (dropBlanksEnd cs).map Char.toLower := by
  rw [dropBlanksEnd, ← List.map_reverse, dropBlanks_toLower, ← List.map_reverse, dropBlanksEnd]

theorem lower_ofList (cs : List Char) :
    lower (String.ofList cs) = String.ofList (cs.map Char.toLower) := by
  rw [lower, String.toList_ofList]

@[simp] theorem lower_lower (s : String) : lower (lower s) = lower s := by
  rw [lower, toList_lower, List.map_map, caseless_toLower.comp_toLower, lower]

@[simp] theorem lower_append (a b : String) : lower (a ++ b) = lower a ++ lower b := by
  rw [← String.toList_inj]
  simp

theorem all_lower {p : Char → Bool} (caseless : Caseless p) (s : String) :
    (lower s).toList.all p = s.toList.all p := by
  rw [toList_lower, List.all_map, caseless.comp_toLower]

theorem trim_lower (s : String) : trim (lower s) = lower (trim s) := by
  rw [trim, toList_lower, dropBlanks_toLower, dropBlanksEnd_toLower, trim, lower_ofList]

theorem isEmpty_lower (s : String) : (lower s).isEmpty = s.isEmpty := by
  rw [Bool.eq_iff_iff, String.isEmpty_iff, String.isEmpty_iff, ← String.toList_inj,
    ← String.toList_inj, toList_lower]
  simp

theorem readDigits?_toLower (cs : List Char) :
    readDigits? (cs.map Char.toLower) = readDigits? cs := by
  have all : (cs.map Char.toLower).all Char.isDigit = cs.all Char.isDigit := by
    rw [List.all_map, caseless_isDigit.comp_toLower]
  unfold readDigits?
  rw [List.isEmpty_map, all]
  split
  · rfl
  · -- a digit is its own lower case
    rename_i digits
    have each : ∀ c ∈ cs, c.toLower = c := by
      intro c mem
      by_cases same : c.toLower = c
      · exact same
      · have letter := (isAlpha_capitals (mem_capitals same)).1
        have other := Token.not_isDigit_of_start (by rw [letter, Bool.true_or])
        simp_all
    rw [List.map_congr_left each, List.map_id']

theorem readUnsigned?_lower (limit : Nat) (s : String) :
    readUnsigned? limit (lower s) = readUnsigned? limit s := by
  unfold readUnsigned?
  rw [toList_lower]
  cases s.toList with
  | nil => rfl
  | cons c rest =>
    have whole := readDigits?_toLower (c :: rest)
    rw [List.map_cons] at whole ⊢
    by_cases plus : c = '+'
    · subst plus
      have same : '+'.toLower = '+' := by decide
      simp only [same, readWithin?, readDigits?_toLower]
    · have plus' : c.toLower ≠ '+' := fun same => plus ((toLower_eq_iff (by decide)).1 same)
      split <;> simp_all [readWithin?]

theorem splitLines_cons_toLower {rest : List Char} (noFeed : c = '\n' → False)
    (noReturn : ∀ more, c = '\r' → rest = '\n' :: more → False) :
    splitLines (c.toLower :: rest.map Char.toLower) =
      match splitLines (rest.map Char.toLower) with
      | [] => [[c.toLower]]
      | line :: more => (c.toLower :: line) :: more := by
  apply splitLines.eq_4
  · exact fun feed => noFeed ((toLower_eq_iff (by decide)).1 feed)
  · intro more back
    have here : c = '\r' := (toLower_eq_iff (by decide)).1 back
    exact ne_cons_toLower (by decide) (fun ds => noReturn ds here) more

theorem splitLines_toLower (cs : List Char) :
    splitLines (cs.map Char.toLower) = (splitLines cs).map (List.map Char.toLower) := by
  induction cs using splitLines.induct with
  | case1 => rfl
  | case2 rest ih =>
    rw [List.map_cons, splitLines, List.map_cons, ← ih]
    exact splitLines.eq_2 _
  | case3 rest ih =>
    rw [List.map_cons, List.map_cons, splitLines, List.map_cons, ← ih]
    exact splitLines.eq_3 _
  | case4 c rest noFeed noReturn alone ih =>
    rw [List.map_cons, splitLines_cons_toLower noFeed noReturn, ih,
      splitLines.eq_4 c rest noFeed noReturn, alone]
    rfl
  | case5 c rest noFeed noReturn line more eq ih =>
    rw [List.map_cons, splitLines_cons_toLower noFeed noReturn, ih,
      splitLines.eq_4 c rest noFeed noReturn, eq]
    rfl

theorem lines_lower (s : String) : lines (lower s) = (lines s).map lower := by
  rw [lines, toList_lower, splitLines_toLower, lines, List.map_map, List.map_map]
  exact List.map_congr_left fun cs _ => (lower_ofList cs).symm

end Text

open Text

namespace LogicalLine

def lower (l : LogicalLine) : LogicalLine := ⟨l.number, Text.lower l.text⟩

theorem caseless_isRemarkNeighbour : Caseless isRemarkNeighbour :=
  caseless_of_capitals (by decide)

theorem startsRemark_toLower (cs : List Char) :
    startsRemark (cs.map Char.toLower) = startsRemark cs := by
  match cs with
  | [] | [_] | [_, _] => rfl
  | r :: e :: m :: rest =>
    have neighbour : (rest.map Char.toLower).head?.any isRemarkNeighbour =
        rest.head?.any isRemarkNeighbour := by
      cases rest with
      | nil => rfl
      | cons c _ => exact caseless_isRemarkNeighbour c
    simp only [List.map_cons, startsRemark, caseless_toLower _, neighbour]

theorem beforeComment_toLower (quoted inWord : Bool) (cs : List Char) :
    beforeComment quoted inWord (cs.map Char.toLower) =
      (beforeComment quoted inWord cs).map Char.toLower := by
  induction cs generalizing quoted inWord with
  | nil => rfl
  | cons c rest ih =>
    have remark := startsRemark_toLower (c :: rest)
    rw [List.map_cons] at remark
    rw [List.map_cons, beforeComment, beforeComment, toLower_beq (by decide),
      toLower_beq (by decide), remark, ih, ih, caseless_isRemarkNeighbour]
    split
    · rfl
    · split <;> rfl

theorem stripComment_lower (line : String) :
    stripComment (Text.lower line) = Text.lower (stripComment line) := by
  rw [stripComment, toList_lower, beforeComment_toLower, stripComment, lower_ofList]

theorem continued?_lower (text : String) :
    continued? (Text.lower text) = (continued? text).map Text.lower := by
  unfold continued?
  rw [toList_lower, ← List.map_reverse]
  cases text.toList.reverse with
  | nil => rfl
  | cons c before =>
    by_cases mark : c = '_'
    · subst mark
      have same : '_'.toLower = '_' := by decide
      rw [List.map_cons, same]
      cases before with
      | nil => rfl
      | cons d more =>
        have blanks := dropBlanks_toLower (d :: more)
        rw [List.map_cons] at blanks
        rw [List.map_cons]
        simp only [toLower_beq (d := ' ') (by decide), toLower_beq (d := '\t') (by decide), blanks]
        split
        · rw [← List.map_reverse, Option.map_some, lower_ofList]
        · rfl
    · have mark' : c.toLower ≠ '_' := fun same => mark ((toLower_eq_iff (by decide)).1 same)
      rw [List.map_cons]
      split <;> simp_all

theorem finish_lower (number : Nat) (text : String) :
    finish number (Text.lower text) = (finish number text).map lower := by
  unfold finish
  dsimp only
  rw [trim_lower, isEmpty_lower]
  split <;> rfl

theorem join_lower (number : Nat) (pending : Pending) (ls : List String) :
    join number (pending.map fun p => (p.1, Text.lower p.2)) (ls.map Text.lower) =
      (join number pending ls).map lower := by
  induction ls generalizing number pending with
  | nil =>
    cases pending with
    | none => rfl
    | some p => exact finish_lower p.1 p.2
  | cons physical rest ih =>
    have goesOn : extended number (pending.map fun p => (p.1, Text.lower p.2))
        (Text.lower physical) =
          ((extended number pending physical).1,
            Text.lower (extended number pending physical).2) := by
      cases pending with
      | none => simp [extended, stripComment_lower, trim_lower]
      | some p =>
        simp only [extended, Option.map_some, stripComment_lower, trim_lower, lower_append]
        rfl
    rw [List.map_cons, join_cons, join_cons, goesOn]
    dsimp only
    rw [continued?_lower]
    cases continued? (extended number pending physical).2 with
    | none => 
      simp only [Option.map_none]
      rw [finish_lower, List.map_append]
      exact congrArg _ (ih (number + 1) none)
    | some head => exact ih (number + 1) (some ((extended number pending physical).1, head))

theorem ofSource_lower (source : String) :
    ofSource (Text.lower source) = (ofSource source).map lower := by
  rw [ofSource, lines_lower]
  exact join_lower 1 none (lines source)

end LogicalLine

theorem Keyword.ofWord?_lower (word : String) : ofWord? (Text.lower word) = ofWord? word := by
  rw [ofWord?, lower_lower, ofWord?]

namespace Token

def lower (t : Token) : Token := { t with gap := Text.lower t.gap, text := Text.lower t.text }

@[simp] theorem kind_lower (t : Token) : t.lower.kind = t.kind := rfl

@[simp] theorem start_lower (t : Token) : t.lower.start = t.start := rfl

@[simp] theorem text_lower (t : Token) : t.lower.text = Text.lower t.text := rfl

@[simp] theorem isWord_lower (t : Token) : t.lower.isWord = t.isWord := rfl

theorem isNamed_lower (name : String) (t : Token) : t.lower.isNamed name = t.isNamed name := by
  rw [isNamed, isWord_lower, text_lower, sameWord, lower_lower, isNamed, sameWord]

theorem byteSize_toLower (cs : List Char) : byteSize (cs.map Char.toLower) = byteSize cs := by
  have width : Caseless Char.utf8Size := caseless_of_capitals (by decide)
  induction cs with
  | nil => rfl
  | cons c rest ih => rw [List.map_cons, byteSize, width, ih, byteSize]

@[simp] theorem stop_lower (t : Token) : t.lower.stop = t.stop := by
  rw [stop, text_lower, toList_lower, byteSize_toLower, start_lower, stop]

theorem run_toLower {p : Char → Bool} (caseless : Caseless p) (cs : List Char) :
    run p (cs.map Char.toLower) = run p cs := by
  rw [run, takeWhile_toLower caseless, List.length_map, run]

theorem run_isDigit_toLower (cs : List Char) :
    run Char.isDigit (cs.map Char.toLower) = run Char.isDigit cs :=
  run_toLower caseless_isDigit cs

theorem exponentLength_toLower (cs : List Char) :
    exponentLength (cs.map Char.toLower) = exponentLength cs := by
  match cs with
  | [] | [_] => rfl
  | e :: sign :: rest =>
    have digits := run_isDigit_toLower (sign :: rest)
    rw [List.map_cons] at digits
    rw [List.map_cons, List.map_cons, exponentLength, toLower_either (by decide),
      toLower_beq (by decide), toLower_beq (by decide), run_isDigit_toLower, digits, exponentLength]

theorem scanWhole_toLower (whole : Nat) (rest : List Char) :
    scanWhole whole (rest.map Char.toLower) = scanWhole whole rest := by
  rw [scanWhole, exponentLength_toLower, scanWhole]

theorem scanNumber_toLower (cs : List Char) : scanNumber (cs.map Char.toLower) = scanNumber cs := by
  unfold scanNumber
  rw [run_isDigit_toLower]
  dsimp only
  rw [← List.map_drop]
  cases cs.drop (run Char.isDigit cs) with
  | nil => rfl
  | cons c rest =>
    rw [List.map_cons]
    by_cases dot : c = '.'
    · subst dot
      have same : '.'.toLower = '.' := by decide
      simp only [same, run_isDigit_toLower, ← List.map_drop, exponentLength_toLower]
    · have dot' : c.toLower ≠ '.' := fun same => dot ((toLower_eq_iff (by decide)).1 same)
      have whole := scanWhole_toLower (run Char.isDigit cs) (c :: rest)
      rw [List.map_cons] at whole
      split <;> simp_all

theorem scanDot_toLower (rest : List Char) : scanDot (rest.map Char.toLower) = scanDot rest := by
  rw [scanDot, run_isDigit_toLower, ← List.map_drop, exponentLength_toLower, scanDot]

theorem scanAmpersand_toLower (cs : List Char) :
    scanAmpersand (cs.map Char.toLower) = scanAmpersand cs := by
  cases cs with
  | nil => rfl
  | cons base rest =>
    rw [List.map_cons, scanAmpersand, toLower_either (by decide),
      toLower_either (by decide), toLower_either (by decide)]
    dsimp only
    rw [run_toLower (caseless_of_capitals (by decide)),
      run_toLower (caseless_of_capitals (by decide)),
      run_toLower (caseless_of_capitals (by decide)), scanAmpersand]

theorem scanWord_toLower (cs : List Char) : scanWord (cs.map Char.toLower) = scanWord cs := by
  unfold scanWord
  rw [run_toLower caseless_isNameChar]
  dsimp only
  rw [← List.map_drop, ← List.map_take, ← lower_ofList,
    Keyword.ofWord?_lower]
  cases cs.drop (run isNameChar cs) with
  | nil => rfl
  | cons c rest =>
    rw [List.map_cons]
    by_cases sigil : c = '$'
    · subst sigil
      rfl
    · have sigil' : c.toLower ≠ '$' := fun same => sigil ((toLower_eq_iff (by decide)).1 same)
      split <;> simp_all

theorem scanQuote_toLower (rest : List Char) :
    scanQuote (rest.map Char.toLower) = scanQuote rest := by
  rw [scanQuote, run_toLower (caseless_of_capitals (p := (· != '\x22')) (by decide)),
    List.length_map, scanQuote]

theorem scanSymbol_toLower (c : Char) (rest : List Char) :
    scanSymbol c (rest.map Char.toLower) = scanSymbol c rest := by
  fun_cases scanSymbol c rest with
  | case6 _ noGreater noEquals =>
    exact scanSymbol.eq_6 _ (ne_cons_toLower (by decide) noGreater)
      (ne_cons_toLower (by decide) noEquals)
  | case7 _ noEquals => exact scanSymbol.eq_7 _ (ne_cons_toLower (by decide) noEquals)
  | case8 _ noGreater => exact scanSymbol.eq_8 _ (ne_cons_toLower (by decide) noGreater)
  | case9 _ noColon => exact scanSymbol.eq_9 _ (ne_cons_toLower (by decide) noColon)
  | case25 =>
    -- no symbol begins with the character, whatever comes after it
    unfold scanSymbol
    split <;> first | rfl | contradiction
  | _ => rfl

theorem scan_toLower (c : Char) (rest : List Char) :
    scan c.toLower (rest.map Char.toLower) = scan c rest := by
  have word := scanWord_toLower (c :: rest)
  have number := scanNumber_toLower (c :: rest)
  rw [List.map_cons] at word number
  rw [scan, caseless_isAlpha, caseless_isDigit, toLower_beq (by decide), toLower_beq (by decide),
    toLower_beq (by decide), toLower_beq (by decide), word, number, scanDot_toLower,
    scanAmpersand_toLower, scanQuote_toLower, scan]
  split
  · rfl
  · -- what is no letter is its own lower case
    rename_i plain
    have same : c.toLower = c := toLower_eq_self (by simp_all)
    rw [same, scanSymbol_toLower]

theorem scanFrom_toLower (start : Nat) (gap : List Char) (skip : Nat) (cs : List Char) :
    scanFrom start (gap.map Char.toLower) skip (cs.map Char.toLower) =
      (scanFrom start gap skip cs).map lower := by
  have white : Caseless isGap := caseless_of_capitals (by decide)
  have width : Caseless Char.utf8Size := caseless_of_capitals (by decide)
  induction cs generalizing start gap skip with
  | nil => cases skip <;> rfl
  | cons c rest ih =>
    cases skip with
    | succ skip => exact ih start gap skip
    | zero =>
      rw [List.map_cons, scanFrom, scanFrom, white, width, scan_toLower]
      split
      · rw [← ih, List.map_append, List.map_singleton]
      · have text : c.toLower :: (rest.map Char.toLower).take ((scan c rest).2 - 1) =
            (c :: rest.take ((scan c rest).2 - 1)).map Char.toLower := by
          rw [List.map_cons, List.map_take]
        dsimp only
        rw [text, byteSize_toLower, ← lower_ofList, ← lower_ofList, List.map_cons, ← ih]
        rfl

theorem ofLine_lower (line : String) : ofLine (Text.lower line) = (ofLine line).map lower := by
  rw [ofLine, toList_lower]
  exact scanFrom_toLower 0 [] 0 line.toList

theorem slice_lower (ts : List Token) : slice (ts.map lower) = Text.lower (slice ts) := by
  cases ts with
  | nil => rfl
  | cons t rest =>
    have behind : String.join ((rest.map lower).map fun t => t.gap ++ t.text) =
        Text.lower (String.join (rest.map fun t => t.gap ++ t.text)) := by
      induction rest with
      | nil => rfl
      | cons u more ih =>
        rw [List.map_cons, List.map_cons, List.map_cons, String.join_cons, String.join_cons, ih,
          lower_append, lower_append]
        rfl
    rw [List.map_cons, slice, behind, slice, lower_append, text_lower]

@[simp] theorem nesting_lower (t : Token) : t.lower.nesting = t.nesting := rfl

@[simp] theorem depthAfter_lower (depth : Nat) (t : Token) :
    depthAfter depth t.lower = depthAfter depth t := rfl

theorem splitAtTop_lower (stop : TokenKind → Bool) (depth : Nat) (ts : List Token) :
    splitAtTop stop depth (ts.map lower) =
      ((splitAtTop stop depth ts).1.map lower, (splitAtTop stop depth ts).2.map lower) := by
  induction ts generalizing depth with
  | nil => rfl
  | cons t rest ih =>
    rw [List.map_cons, splitAtTop, splitAtTop, depthAfter_lower, ih, kind_lower]
    split <;> rfl

theorem closeGroup?_lower (depth : Nat) (ts : List Token) :
    closeGroup? depth (ts.map lower) = (closeGroup? depth ts).map fun found =>
      (found.1.map lower, found.2.1.lower, found.2.2.map lower) := by
  induction ts generalizing depth with
  | nil => rfl
  | cons t rest ih =>
    rw [List.map_cons]
    unfold closeGroup?
    rw [nesting_lower, depthAfter_lower, ih]
    split
    · rfl
    · rw [Option.map_map, Option.map_map]
      rfl

theorem unbalancedAt?_lower (opened : List Nat) (ts : List Token) :
    unbalancedAt? opened (ts.map lower) = unbalancedAt? opened ts := by
  induction ts generalizing opened with
  | nil => rfl
  | cons t rest ih =>
    rw [List.map_cons]
    unfold unbalancedAt?
    rw [nesting_lower, start_lower, ih, ih]
    split
    · rfl
    · rfl
    · exact ih _
    · rfl

theorem checkBalanced_lower (ts : List Token) :
    checkBalanced (ts.map lower) = checkBalanced ts := by
  rw [checkBalanced, unbalancedAt?_lower, checkBalanced]

theorem splitCommas_lower (endColumn depth : Nat) (ts : List Token) :
    splitCommas endColumn depth (ts.map lower) =
      (splitCommas endColumn depth ts).map fun piece => (piece.1.map lower, piece.2) := by
  induction ts generalizing depth with
  | nil => rfl
  | cons t rest ih =>
    rw [List.map_cons, splitCommas, splitCommas, depthAfter_lower, ih, ih, kind_lower, start_lower]
    split
    · rfl
    · cases splitCommas endColumn (depthAfter depth t) rest <;> rfl

theorem endColumn_lower (ts : List Token) : endColumn (ts.map lower) = endColumn ts := by
  have same : stop ∘ lower = stop := funext stop_lower
  rw [endColumn, List.getLast?_map, Option.map_map, same, endColumn]

end Token

end BasicSketch
