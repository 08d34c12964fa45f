import BasicSketch.Lint.Fix
import BasicSketch.Proofs.MarkedLine

set_option autoImplicit false

/-! The text that a quick fix leaves. -/

namespace BasicSketch

namespace Text

/-- A text with a plain line feed for each of its breaks. -/
def feeds : List Char → List Char
  | [] => []
  | '\r' :: '\n' :: rest => '\n' :: feeds rest
  | c :: rest => c :: feeds rest

def lineAt? (text : String) (number : Nat) : Option String :=
  if number = 0 then none else (lines text)[number - 1]?

def ended (ls : List String) : List Char := ls.flatMap fun l => l.toList ++ ['\n']

def begun (ls : List String) : List Char := ls.flatMap fun l => '\n' :: l.toList

theorem toList_intercalate_feed (before : List String) (line : String) (after : List String) :
    ("\n".intercalate (before ++ line :: after)).toList =
      ended before ++ line.toList ++ begun after := by
  induction before with
  | nil =>
    induction after generalizing line with
    | nil => simp [ended, begun]
    | cons next more ih =>
      have rest := ih next
      simp only [ended, List.flatMap_nil, List.nil_append] at rest ⊢
      simp [String.intercalate_cons_of_ne_nil, rest, begun]
  | cons first more ih =>
    rw [List.cons_append, String.intercalate_cons_of_ne_nil (by simp), String.toList_append,
      String.toList_append, ih]
    simp [ended]

theorem ended_concat (ls : List String) (line : String) :
    ended (ls ++ [line]) = ended ls ++ line.toList ++ ['\n'] := by
  simp [ended]

theorem toList_intercalate_eq_dropLast (ls : List String) :
    ("\n".intercalate ls).toList = (ended ls).dropLast := by
  rcases List.eq_nil_or_concat ls with rfl | ⟨front, last, rfl⟩
  · rfl
  · rw [List.concat_eq_append, toList_intercalate_feed, ended_concat, List.dropLast_concat]
    exact List.append_nil _

theorem count_ended {ls : List String} (flat : ∀ l ∈ ls, Flat l) :
    (ended ls).count '\n' = ls.length := by
  induction ls with
  | nil => rfl
  | cons l more ih =>
    obtain ⟨here, there⟩ := List.forall_mem_cons.1 flat
    have tail := ih there
    rw [ended, List.flatMap_cons, List.count_append, List.count_append,
      List.count_eq_zero.2 here]
    rw [ended] at tail
    simp [tail]
    omega

theorem getLast?_ended (ls : List String) : ended ls = [] ∨ (ended ls).getLast? = some '\n' := by
  rcases List.eq_nil_or_concat ls with rfl | ⟨front, last, rfl⟩
  · exact .inl rfl
  · exact .inr (by rw [List.concat_eq_append, ended_concat, List.getLast?_concat])

theorem feeds_flat {cs : List Char} (flat : '\n' ∉ cs) : feeds cs = cs := by
  fun_induction feeds cs with
  | case1 => rfl
  | case2 rest ih => simp at flat
  | case3 c rest other ih => rw [ih fun mem => flat (List.mem_cons_of_mem _ mem)]

theorem getLast?_feeds (cs : List Char) : (feeds cs).getLast? = cs.getLast? := by
  fun_induction feeds cs <;> simp [List.getLast?_cons, *]

theorem feeds_append {cs : List Char} (flat : '\n' ∉ cs) (rest : List Char) :
    feeds (cs ++ '\n' :: rest) = chomp cs ++ '\n' :: feeds rest := by
  fun_induction chomp cs with
  | case1 => simp [feeds]
  | case2 => simp [feeds]
  | case3 c more other ih =>
    obtain ⟨here, there⟩ : '\n' ≠ c ∧ '\n' ∉ more := by simpa using flat
    have apart : ∀ tail, c = '\r' → more ++ '\n' :: rest = '\n' :: tail → False := by
      intro tail isReturn eq
      cases more with
      | nil => exact other isReturn rfl
      | cons d tail' => exact there (by simp [(List.cons.inj eq).1])
    rw [List.cons_append, feeds.eq_3 _ _ apart, ih there, List.cons_append]

def endsInFeed (cs : List Char) : Bool := cs.getLast? == some '\n'

theorem endsWith_feed (text : String) : endsWith text "\n" = endsInFeed text.toList := by
  rw [endsInFeed, List.getLast?_eq_head?_reverse]
  change ['\n'].isPrefixOf text.toList.reverse = _
  cases text.toList.reverse with
  | nil => rfl
  | cons c rest => simpa [List.isPrefixOf] using @BEq.comm Char _ _ '\n' c

theorem toList_intercalate_lines (cs : List Char) :
    ("\n".intercalate ((splitLines cs).map String.ofList)).toList ++
      (if endsInFeed cs then ['\n'] else []) = feeds cs := by
  induction cs using line_induction with
  | last cs flat =>
    cases cs with
    | nil => rfl
    | cons c rest =>
      have open_ended : ¬endsInFeed (c :: rest) := fun feed =>
        flat (List.mem_of_getLast? (beq_iff_eq.1 feed))
      rw [if_neg open_ended, splitLines_flat flat (by simp), feeds_flat flat]
      simp
  | line cs rest flat ih =>
    rw [splitLines_append flat, feeds_append flat, ← ih]
    cases rest with
    | nil => simp [splitLines, endsInFeed]
    | cons d more =>
      have goes_on : (splitLines (d :: more)).map String.ofList ≠ [] := by
        simpa using splitLines_ne_nil (List.cons_ne_nil d more)
      rw [List.map_cons, String.intercalate_cons_of_ne_nil goes_on]
      simp [endsInFeed]

end Text

open Text

namespace Lint.Fix

theorem toList_joinLike_lines (text : String) :
    (joinLike text (lines text)).toList = feeds text.toList := by
  rw [← toList_intercalate_lines, joinLike, String.toList_append, lines, endsWith_feed]
  congr 1
  exact apply_ite String.toList _ _ _

/-- What is left of a text when a line is taken out: the break behind the line goes with it. -/
def withoutLine (before behind : List Char) : List Char :=
  match behind with
  | [] => before.dropLast
  | feed :: rest => if before = [] ∧ rest = [] then [feed] else before ++ rest

theorem toList_joinLike (text : String) (ls : List String) :
    (joinLike text ls).toList =
      ("\n".intercalate ls).toList ++ if endsInFeed text.toList then ['\n'] else [] := by
  rw [joinLike, String.toList_append, endsWith_feed]
  congr 1
  exact apply_ite String.toList _ _ _

theorem toList_removed (text : String) {line : String} (before after : List String)
    (eq : lines text = before ++ line :: after) :
    (joinLike text (before ++ after)).toList =
      withoutLine (ended before)
        (begun after ++ if endsInFeed text.toList then ['\n'] else []) := by
  rw [toList_joinLike]
  cases after with
  | nil =>
    rw [List.append_nil, toList_intercalate_eq_dropLast]
    by_cases feed : endsInFeed text.toList = true
    · rcases List.eq_nil_or_concat before with rfl | ⟨front, last, rfl⟩
      · simp [feed, withoutLine, begun, ended]
      · simp [feed, withoutLine, begun, ended_concat]
    · simp [feed, withoutLine, begun]
  | cons next more =>
    have alone : ¬(ended before = [] ∧
        next.toList ++ begun more ++ (if endsInFeed text.toList then ['\n'] else []) = []) := by
      rintro ⟨first, absent⟩
      obtain ⟨⟨blank, last⟩, open_ended⟩ : (next.toList = [] ∧ begun more = []) ∧
          (if endsInFeed text.toList then ['\n'] else []) = [] := by
        simpa only [List.append_eq_nil_iff] using absent
      have whole := toList_joinLike_lines text
      rw [toList_joinLike, open_ended, eq, toList_intercalate_feed] at whole
      have feed : endsInFeed text.toList = true := by
        rw [endsInFeed, ← getLast?_feeds, ← whole]
        simp [begun, blank, show more.flatMap _ = [] from last]
      simp [feed] at open_ended
    rw [toList_intercalate_feed]
    simp only [withoutLine, begun, List.flatMap_cons, List.cons_append] at alone ⊢
    rw [if_neg alone]
    simp

theorem apply_eq (fix : Fix) (number : Nat) (snippet text : String) :
    fix.apply number snippet text =
      (((lineAt? text number).bind (fix.replacement? snippet)).map fun replacement =>
        joinLike text
          ((lines text).take (number - 1) ++ replacement ++ (lines text).drop number)).getD
          text := by
  unfold apply lineAt?
  by_cases zero : number = 0
  · subst zero
    rfl
  · have counted : (guard (number ≠ 0) : Option Unit) = some () := if_pos zero
    dsimp only
    rw [counted, if_neg zero]
    cases (lines text)[number - 1]? with
    | none => rfl
    | some line => cases applies : fix.replacement? snippet line <;> simp [applies]

theorem lines_eq_of_lineAt? {number : Nat} {text line : String}
    (found : lineAt? text number = some line) :
    lines text = (lines text).take (number - 1) ++ line :: (lines text).drop number ∧
      ((lines text).take (number - 1)).length = number - 1 := by
  unfold lineAt? at found
  split at found
  · cases found
  · rename_i counted
    obtain ⟨inside, here⟩ := List.getElem?_eq_some_iff.1 found
    have next : number = number - 1 + 1 := by omega
    refine ⟨?_, by rw [List.length_take]; omega⟩
    calc lines text = (lines text).take (number - 1) ++ (lines text).drop (number - 1) :=
          (List.take_append_drop _ _).symm
      _ = _ := by rw [List.drop_eq_getElem_cons inside, here, ← next]

theorem fix_changes_own_line (fix : Fix) (number : Nat) (snippet text : String) :
    match (lineAt? text number).bind fun line => (fix.replacement? snippet line).map (line, ·) with
    | none => fix.apply number snippet text = text
    | some (line, replacement) =>
      ∃ before behind, feeds text.toList = before ++ line.toList ++ behind ∧
        before.count '\n' = number - 1 ∧ (before = [] ∨ before.getLast? = some '\n') ∧
        '\n' ∉ line.toList ∧ (behind = [] ∨ behind.head? = some '\n') ∧
        (fix.apply number snippet text).toList =
          if replacement = [] then withoutLine before behind
          else before ++ ("\n".intercalate replacement).toList ++ behind := by
  rw [apply_eq]
  cases found : lineAt? text number with
  | none => rfl
  | some line =>
    cases applies : fix.replacement? snippet line with
    | none => simp [applies]
    | some replacement =>
      obtain ⟨eq, size⟩ := lines_eq_of_lineAt? found
      generalize (lines text).take (number - 1) = before at eq size ⊢
      generalize (lines text).drop number = after at eq ⊢
      have flat (l : String) (mem : l ∈ before ++ line :: after) : Flat l :=
        flat_of_mem_lines (by rwa [eq])
      simp only [Option.bind_some, applies, Option.map_some]
      refine ⟨ended before, begun after ++ if endsInFeed text.toList then ['\n'] else [], ?_, ?_,
        getLast?_ended before, flat line (by simp), ?_, ?_⟩
      · rw [← toList_joinLike_lines, toList_joinLike, eq, toList_intercalate_feed,
          List.append_assoc]
      · rw [count_ended fun l mem => flat l (List.mem_append_left _ mem), size]
      · cases after with
        | nil => split <;> simp [begun]
        | cons next more => exact .inr rfl
      · split
        · rename_i removed
          rw [removed, List.append_nil]
          exact toList_removed text before after eq
        · rename_i kept
          obtain ⟨first, others, rfl⟩ := List.exists_cons_of_ne_nil kept
          have inner := toList_intercalate_feed [] first others
          simp only [List.nil_append, Option.getD_some] at inner ⊢
          rw [toList_joinLike, List.append_assoc, List.cons_append, toList_intercalate_feed, inner]
          simp [ended, begun]

theorem fix_turns_breaks_into_feeds :
    Fix.commentLine.apply 2 "b" "a\r\nb" = "a\n' b" ∧ "a\n' b" ≠ "a\r\n" ++ Fix.commented "b" := by
  decide

end Lint.Fix

end BasicSketch
