import BasicSketch.Proofs.Layout
import BasicSketch.Proofs.LineCuts

set_option autoImplicit false

/-! Lines that go on. -/

namespace BasicSketch

open Text

namespace LogicalLine

theorem startsRemark_blank (front rest rest' : List Char) :
    startsRemark (front ++ ' ' :: rest) = startsRemark (front ++ ' ' :: rest') := by
  match front with
  | [] => rw [List.nil_append, startsRemark_of_isInert (by decide),
      List.nil_append, startsRemark_of_isInert (by decide)]
  | [_] => cases rest <;> cases rest' <;> simp [startsRemark]
  | [_, _] => simp [startsRemark]
  | [_, _, _] => rfl
  | _ :: _ :: _ :: _ :: _ => rfl

theorem beforeComment_blank {quoted inWord : Bool} {front rest : List Char}
    (outside : front ++ [' '] <+: beforeComment quoted inWord (front ++ ' ' :: rest))
    (rest' : List Char) :
    beforeComment quoted inWord (front ++ ' ' :: rest') =
      front ++ ' ' :: beforeComment (quoted ^^ front.count '"' % 2 == 1) false rest' := by
  induction front generalizing quoted inWord with
  | nil =>
    have silent : startsRemark (' ' :: rest') = false := startsRemark_of_isInert (by decide) rest'
    have apart : isRemarkNeighbour ' ' = false := by decide
    simp [beforeComment, silent, apart]
  | cons c front ih =>
    have same : startsRemark (c :: (front ++ ' ' :: rest)) =
        startsRemark (c :: (front ++ ' ' :: rest')) := startsRemark_blank (c :: front) rest rest'
    simp only [List.cons_append, beforeComment, same] at outside ⊢
    by_cases quote : c = '"'
    · simp only [quote, beq_self_eq_true, if_true, List.prefix_cons_inj, List.count_cons_self]
        at outside ⊢
      rw [ih outside]
      have turned : (!quoted ^^ front.count '"' % 2 == 1) =
          (quoted ^^ (front.count '"' + 1) % 2 == 1) := by
        rcases Nat.mod_two_eq_zero_or_one (front.count '"') with even | odd
        · simp [Nat.add_mod, even]
        · simp [Nat.add_mod, odd]
      rw [turned]
    · have plain : (c == '"') = false := by simpa using quote
      simp only [plain, Bool.false_eq_true, if_false] at outside ⊢
      split at outside
      · simp at outside
      · rename_i code
        rw [if_neg code, ih ((List.prefix_cons_inj c).1 outside), List.count_cons_of_ne quote]

theorem continued?_mark {text : String} (dark : ∀ c ∈ text.toList.getLast?, isBlank c = false) :
    continued? (text ++ " _") = some text := by
  have blank : dropBlanks (' ' :: text.toList.reverse) = text.toList.reverse := by
    rw [dropBlanks, List.dropWhile_cons_of_pos (by decide), ← dropBlanks,
      dropBlanks_eq_self (by simpa using dark)]
  simp [continued?, blank]

theorem continued?_blank (text : String) : continued? (text ++ " ") = none := by
  simp [continued?]

theorem continued?_behind {text : String} (full : text ≠ "") (ends : continued? text = none)
    (head : String) : continued? (head ++ " " ++ text) = none := by
  unfold continued? at ends ⊢
  rw [String.toList_append, List.reverse_append]
  cases eq : text.toList.reverse with
  | nil => exact absurd (by simpa using eq) full
  | cons c before =>
    cases before with
    | nil =>
      have other : c ≠ '_' := by
        rintro rfl
        simp [eq] at ends
      simp [other]
    | cons d before =>
      by_cases mark : c = '_'
      · simpa [eq, mark] using ends
      · simp [mark]

theorem finish_blank (number : Nat) (text : String) :
    finish number (text ++ " ") = finish number text := by
  have same : trim (text ++ " ") = trim text := by
    rw [trim, trim, String.toList_append, trim_append (List.all_eq_true.1 (by decide))]
  unfold finish
  rw [same]

/-- The blank between `u` and `v` stands outside of quotes and of the comment, with no white space
beside it. -/
structure Breakable (u v : String) : Prop where
  last : ∃ c, u.toList.getLast? = some c ∧ isBlank c = false
  first : ∀ c ∈ v.toList.head?, isBlank c = false
  outside : (u ++ " ").toList <+: (stripComment (u ++ " " ++ v)).toList
  even : u.toList.count '"' % 2 = 0

namespace Breakable

variable {u v : String} (breakable : Breakable u v)

include breakable

theorem beforeComment_eq (rest : List Char) :
    beforeComment false false (u.toList ++ ' ' :: rest) =
      u.toList ++ ' ' :: beforeComment false false rest := by
  have outside : u.toList ++ [' '] <+:
      beforeComment false false (u.toList ++ ' ' :: v.toList) := by
    simpa [stripComment] using breakable.outside
  rw [beforeComment_blank outside, breakable.even]
  rfl

theorem toList_trim_first : (trim u).toList = dropBlanks u.toList := by
  obtain ⟨c, last, dark⟩ := breakable.last
  rw [toList_trim, dropBlanksEnd_eq_self (by simp [getLast?_dropBlanks last dark, dark])]

theorem dark_first : ∀ c ∈ (trim u).toList.getLast?, isBlank c = false := by
  obtain ⟨c, last, dark⟩ := breakable.last
  simp [breakable.toList_trim_first, getLast?_dropBlanks last dark, dark]

theorem dark_behind (front : String) :
    ∀ c ∈ (front ++ trim u).toList.getLast?, isBlank c = false := by
  obtain ⟨c, last, dark⟩ := breakable.last
  rw [String.toList_append, List.getLast?_append, breakable.toList_trim_first,
    getLast?_dropBlanks last dark]
  simpa using dark

theorem full_first : trim u ≠ "" := by
  obtain ⟨c, last, dark⟩ := breakable.last
  intro empty
  have absent := breakable.toList_trim_first
  simp [empty, ← List.getLast?_eq_none_iff, getLast?_dropBlanks last dark] at absent

theorem dropBlanks_append (tail : List Char) :
    dropBlanks (u.toList ++ tail) = (trim u).toList ++ tail := by
  rw [breakable.toList_trim_first, dropBlanks_append_of_ne_nil]
  intro none_left
  rw [← breakable.toList_trim_first] at none_left
  exact breakable.full_first (String.toList_inj.1 none_left)

theorem code_marked : trim (stripComment (u ++ " _")) = trim u ++ " _" := by
  have mark : beforeComment false false ['_'] = ['_'] := by decide
  have whole : beforeComment false false (u ++ " _").toList = u.toList ++ [' ', '_'] := by
    rw [← mark, ← breakable.beforeComment_eq ['_'], String.toList_append]
    rfl
  apply String.toList_injective
  rw [toList_trim, stripComment, String.toList_ofList, whole, breakable.dropBlanks_append,
    dropBlanksEnd_append_of_ne_nil _ (by decide), String.toList_append]
  rfl

theorem dark_second : ∀ c ∈ (beforeComment false false v.toList).head?, isBlank c = false := by
  intro c head
  obtain ⟨tail, eq⟩ := isPrefix_beforeComment false false v.toList
  apply breakable.first
  rw [← eq, List.head?_append]
  simp [Option.mem_def.1 head]

theorem code_second : (trim (stripComment v)).toList =
    dropBlanksEnd (beforeComment false false v.toList) := by
  rw [toList_trim, stripComment, String.toList_ofList, dropBlanks_eq_self breakable.dark_second]

theorem second_eq_nil (empty : trim (stripComment v) = "") :
    beforeComment false false v.toList = [] := by
  have none_left := breakable.code_second
  have dark := breakable.dark_second
  cases eq : beforeComment false false v.toList with
  | nil => rfl
  | cons c rest =>
    rw [eq] at none_left dark
    obtain ⟨more, kept⟩ := dropBlanksEnd_cons rest (dark c rfl)
    rw [empty, kept] at none_left
    cases none_left

theorem code_whole : trim (stripComment (u ++ " " ++ v)) =
    if trim (stripComment v) = "" then trim u else trim u ++ " " ++ trim (stripComment v) := by
  have whole : beforeComment false false (u ++ " " ++ v).toList =
      u.toList ++ ' ' :: beforeComment false false v.toList := by
    simpa using breakable.beforeComment_eq v.toList
  have code : (trim (stripComment (u ++ " " ++ v))).toList =
      dropBlanksEnd ((trim u).toList ++ ' ' :: beforeComment false false v.toList) := by
    rw [toList_trim, stripComment, String.toList_ofList, whole, breakable.dropBlanks_append]
  apply String.toList_injective
  rw [code]
  split
  · rename_i empty
    rw [breakable.second_eq_nil empty, dropBlanksEnd_append (List.all_eq_true.1 (by decide)),
      dropBlanksEnd_eq_self breakable.dark_first]
  · rename_i full
    have dark : dropBlanksEnd (beforeComment false false v.toList) ≠ [] := by
      rw [← breakable.code_second]
      exact fun none_left => full (String.toList_inj.1 none_left)
    rw [List.append_cons, dropBlanksEnd_append_of_ne_nil _ dark, ← breakable.code_second]
    simp

end Breakable

theorem finish_moved {place first : Nat} (early : first ≤ place) (text : String) :
    (finish first text).map (renumber (movedBehind place)) = finish first text := by
  rw [renumber_finish, movedBehind, if_neg (by omega)]

theorem join_later {place number : Nat} (behind : place < number) {pending : Pending}
    (begun : ∀ p ∈ pending, p.1 ≤ place) (ls : List String) :
    join (number + 1) pending ls =
      (join number pending ls).map (renumber (movedBehind place)) := by
  have same : pending.map (fun p => (movedBehind place p.1, p.2)) = pending := by
    cases pending with
    | none => rfl
    | some p => rw [Option.map_some, movedBehind, if_neg (Nat.not_lt.2 (begun p rfl))]
  have moved (n : Nat) (above : number ≤ n) : movedBehind place n = n + 1 := if_pos (by omega)
  rw [← join_renumber moved, same]

def lead : Pending → String
  | none => ""
  | some (_, head) => head ++ " "

theorem extended_text (number : Nat) (pending : Pending) (physical : String) :
    (extended number pending physical).2 = lead pending ++ trim (stripComment physical) := by
  cases pending with
  | none => exact String.empty_append.symm
  | some p => rfl

theorem continued?_lead {pending : Pending} {text : String} (full : text ≠ "")
    (ends : continued? text = none) : continued? (lead pending ++ text) = none := by
  cases pending with
  | none => simpa [lead] using ends
  | some p => exact continued?_behind full ends p.2

section Broken

variable {u v : String} {number : Nat} {pending : Pending}

theorem firstNumber_le (begun : ∀ p ∈ pending, p.1 < number) :
    firstNumber number pending ≤ number := by
  cases pending with
  | none => exact Nat.le_refl _
  | some p => exact Nat.le_of_lt (begun p rfl)

theorem join_broken (breakable : Breakable u v)
    (ends : trim (stripComment v) = "" → continued? (trim u) = none)
    (begun : ∀ p ∈ pending, p.1 < number) (after : List String) :
    join number pending ((u ++ " _") :: v :: after) =
      (join number pending ((u ++ " " ++ v) :: after)).map (renumber (movedBehind number)) := by
  have first := firstNumber_le begun
  have later (more : Pending) (begun : ∀ p ∈ more, p.1 ≤ number) :
      join (number + 1 + 1) more after =
        (join (number + 1) more after).map (renumber (movedBehind number)) :=
    join_later (Nat.lt_succ_self number) begun after
  have marked : continued? (lead pending ++ (trim u ++ " _")) = some (lead pending ++ trim u) := by
    rw [← String.append_assoc, continued?_mark (breakable.dark_behind _)]
  rw [join_cons, extended_text, extended_number, breakable.code_marked, marked]
  dsimp only
  rw [join_cons, join_cons, extended_text, extended_text, extended_number, extended_number,
    breakable.code_whole, lead, firstNumber]
  by_cases empty : trim (stripComment v) = ""
  · rw [if_pos empty, empty, String.append_empty, continued?_blank,
      continued?_lead breakable.full_first (ends empty)]
    dsimp only
    rw [finish_blank, List.map_append, finish_moved first, later none (by simp)]
  · rw [if_neg empty, ← String.append_assoc, ← String.append_assoc]
    split
    · exact later _ (by simpa using first)
    · rw [List.map_append, finish_moved first, later none (by simp)]

theorem join_broken_behind (breakable : Breakable u v)
    (ends : trim (stripComment v) = "" → continued? (trim u) = none)
    (begun : ∀ p ∈ pending, p.1 < number) (before after : List String) :
    join number pending (before ++ (u ++ " _") :: v :: after) =
      (join number pending (before ++ (u ++ " " ++ v) :: after)).map
        (renumber (movedBehind (number + before.length))) := by
  induction before generalizing number pending with
  | nil => exact join_broken breakable ends begun after
  | cons physical rest ih =>
    have first := firstNumber_le begun
    have place : number + (physical :: rest).length = number + 1 + rest.length := by
      rw [List.length_cons, Nat.add_assoc, Nat.add_comm 1]
    rw [List.cons_append, List.cons_append, join_cons, join_cons, extended_number, place]
    split
    · exact ih (by simpa using Nat.lt_succ_of_le first)
    · rw [List.map_append, finish_moved (by omega), ih (by simp)]

theorem join_empty_end (ls : List String) :
    join number pending (ls ++ [""]) = join number pending ls := by
  have blank : trim (stripComment "") = "" := by decide
  induction ls generalizing number pending with
  | nil =>
    cases pending with
    | none => rfl
    | some p =>
      rw [List.nil_append, join_cons, extended_text, blank, lead, String.append_empty,
        continued?_blank, extended_number, join_nil_some]
      exact (List.append_nil _).trans (finish_blank p.1 p.2)
  | cons physical rest ih =>
    rw [List.cons_append, join_cons, join_cons]
    split
    · exact ih
    · rw [ih]

end Broken

end LogicalLine

/-- A line that is broken at a blank, with a mark of continuation behind the first part, gives the
same logical lines; only those that begin behind it have numbers that are one higher. -/
theorem continuation_transparent {source source' u v : String} {before after broken : List String}
    (lines : Text.lines source = before ++ (u ++ " " ++ v) :: after)
    (lines' : Text.lines source' = before ++ (u ++ " _") :: broken)
    (second : broken = v :: after ∨ broken = [] ∧ v = "" ∧ after = [])
    (breakable : LogicalLine.Breakable u v)
    (ends : Text.trim (LogicalLine.stripComment v) = "" →
      LogicalLine.continued? (Text.trim u) = none) :
    LogicalLine.ofSource source' = (LogicalLine.ofSource source).map fun l =>
      { l with number := if before.length + 1 < l.number then l.number + 1 else l.number } := by
  have whole := @LogicalLine.join_broken_behind u v 1 none breakable ends (by simp) before after
  rw [Nat.add_comm 1] at whole
  rw [LogicalLine.ofSource, LogicalLine.ofSource, lines, lines']
  rcases second with rfl | ⟨rfl, rfl, rfl⟩
  · exact whole
  · rw [List.append_cons, LogicalLine.join_empty_end] at whole
    exact whole

theorem continuation_transparent_inside :
    let u := "  f(\"it's\","
    let v := "2) + _ ' go on"
    let source := "x = _\n  f(\"it's\", 2) + _ ' go on\n3\ny = 4"
    let source' := "x = _\n  f(\"it's\", _\n2) + _ ' go on\n3\ny = 4"
    Text.lines source = ["x = _"] ++ (u ++ " " ++ v) :: ["3", "y = 4"] ∧
    Text.lines source' = ["x = _"] ++ (u ++ " _") :: v :: ["3", "y = 4"] ∧
    LogicalLine.Breakable u v ∧
    (LogicalLine.ofSource source).map LogicalLine.number = [1, 4] ∧
    LogicalLine.ofSource source' = (LogicalLine.ofSource source).map fun l =>
      { l with number := if 1 + 1 < l.number then l.number + 1 else l.number } := by
  intro u v source source'
  have lines : Text.lines source = ["x = _"] ++ (u ++ " " ++ v) :: ["3", "y = 4"] := by
    decide +kernel
  have lines' : Text.lines source' = ["x = _"] ++ (u ++ " _") :: v :: ["3", "y = 4"] := by
    decide +kernel
  have breakable : LogicalLine.Breakable u v :=
    ⟨⟨',', by decide +kernel⟩, by simp [v, isBlank], by decide +kernel, by decide +kernel⟩
  exact ⟨lines, lines', breakable, by decide +kernel,
    continuation_transparent lines lines' (Or.inl rfl) breakable (by decide +kernel)⟩

/-- Broken in two, the line does not go on with the one behind it. -/
theorem continuation_lost_behind_mark :
    let source := "x _ ' note\ny"
    let source' := "x _ _\n' note\ny"
    Text.lines source = ("x _" ++ " " ++ "' note") :: ["y"] ∧
    Text.lines source' = ("x _" ++ " _") :: "' note" :: ["y"] ∧
    LogicalLine.Breakable "x _" "' note" ∧
    LogicalLine.ofSource source = [⟨1, "x y"⟩] ∧
    LogicalLine.ofSource source' = [⟨1, "x _"⟩, ⟨3, "y"⟩] :=
  ⟨by decide +kernel, by decide +kernel,
    ⟨⟨'_', by decide +kernel⟩, by simp [isBlank], by decide +kernel, by decide +kernel⟩,
    by decide +kernel, by decide +kernel⟩

end BasicSketch
