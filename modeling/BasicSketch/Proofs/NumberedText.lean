import BasicSketch.Proofs.MarkedLine
import Mathlib.Data.List.Infix
import Mathlib.Data.List.TakeWhile

set_option autoImplicit false

/-! Numbering the lines of a text. -/

namespace BasicSketch

open SketchLine (markerStart)
open Text

theorem Text.isPrefixOf?_append_of_apart {p tail : List Char}
    (apart : ∀ c q, c :: q <:+ p → (c :: q).isPrefixOf? tail = none) (cs : List Char) :
    p.isPrefixOf? (cs ++ tail) = (p.isPrefixOf? cs).map (· ++ tail) := by
  induction cs generalizing p with
  | nil =>
    cases p with
    | nil => cases tail <;> rfl
    | cons c more => exact apart c more List.suffix_rfl
  | cons c rest ih =>
    cases p with
    | nil => rfl
    | cons d more =>
      have later := ih fun e q ends => apart e q (ends.trans (List.suffix_cons d more))
      rw [List.cons_append, List.isPrefixOf?, List.isPrefixOf?, later]
      split <;> rfl

namespace LineMap

/-- A marker of a source line: blanks, the text of markers and a number that no digit follows. -/
def Marks (line : String) (source : Nat) : Prop :=
  ∃ blanks digits rest, line.toList = blanks ++ (markerStart.toList ++ (digits ++ rest)) ∧
    (∀ c ∈ blanks, isBlank c = true) ∧ (∀ c ∈ rest.head?, isDecimalDigit c = false) ∧
    readDigits? digits = some source ∧ source ≤ maxLong

theorem isDecimalDigit_of_readDigits? {digits : List Char} {n : Nat}
    (read : readDigits? digits = some n) : ∀ c ∈ digits, isDecimalDigit c = true := by
  intro c mem
  apply Sketch.isDecimalDigit_of_isDigit
  by_contra other
  have odd : digits.all Char.isDigit = false := List.all_eq_false.2 ⟨c, mem, other⟩
  simp [readDigits?, odd] at read

theorem markedLine?_eq_some_iff {line : String} {source : Nat} :
    markedLine? line = some source ↔ Marks line source := by
  rw [markedLine?]
  simp only [Option.bind_eq_bind, Option.bind_eq_some_iff, readWithin?, Option.filter_eq_some_iff,
    decide_eq_true_eq, List.isPrefixOf?_eq_some_iff_append_eq]
  constructor
  · rintro ⟨rest, text, read, fits⟩
    refine ⟨line.toList.takeWhile isBlank, rest.takeWhile isDecimalDigit,
      rest.dropWhile isDecimalDigit, ?_, fun _ => List.mem_takeWhile_imp, fun c head => ?_, read,
      fits⟩
    · rw [List.takeWhile_append_dropWhile, text]
      exact List.takeWhile_append_dropWhile.symm
    · have stops := List.head?_dropWhile_not isDecimalDigit rest
      rw [Option.mem_def.1 head] at stops
      simpa using stops
  · rintro ⟨blanks, digits, rest, text, white, stops, read, fits⟩
    have taken : (digits ++ rest).takeWhile isDecimalDigit = digits := by
      rw [List.takeWhile_append_of_pos (isDecimalDigit_of_readDigits? read)]
      cases rest with
      | nil => simp
      | cons c more => simp [stops c rfl]
    refine ⟨digits ++ rest, ?_, by rwa [taken], fits⟩
    rw [text, dropBlanks, List.dropWhile_append_of_pos white]
    rfl

/-- The number on the last marker of the lines, or 1 if none of them is one. -/
def LastMark (ls : List String) (source : Nat) : Prop :=
  (∃ before line after, ls = before ++ line :: after ∧ Marks line source ∧
    ∀ l ∈ after, ∀ n, ¬Marks l n) ∨ source = 1 ∧ ∀ l ∈ ls, ∀ n, ¬Marks l n

theorem lastMark_findSome? (ls : List String) :
    LastMark ls ((ls.reverse.findSome? markedLine?).getD 1) := by
  have unmarked {l : String} (absent : markedLine? l = none) (n : Nat) : ¬Marks l n := by
    intro marks
    simp [markedLine?_eq_some_iff.2 marks] at absent
  cases found : ls.reverse.findSome? markedLine? with
  | none =>
    rw [List.findSome?_eq_none_iff] at found
    exact .inr ⟨rfl, fun l mem => unmarked (found l (List.mem_reverse.2 mem))⟩
  | some source =>
    obtain ⟨after, line, before, eq, marked, absent⟩ := List.findSome?_eq_some_iff.1 found
    refine .inl ⟨before.reverse, line, after.reverse, ?_, markedLine?_eq_some_iff.1 marked,
      fun l mem => unmarked (absent l (List.mem_reverse.1 mem))⟩
    simpa using congrArg List.reverse eq

theorem sourcesFrom_at (current : Nat) (ls : List String) (k : Nat) :
    ((sourcesFrom current ls)[k]?.or (sourcesFrom current ls).getLast?).getD current =
      ((ls.take (k + 1)).reverse.findSome? markedLine?).getD current := by
  induction ls generalizing current k with
  | nil => rfl
  | cons line rest ih =>
    cases k with
    | zero => simp [sourcesFrom]
    | succ k =>
      have later := ih ((markedLine? line).getD current) k
      rw [sourcesFrom, List.getElem?_cons_succ, List.getLast?_cons, List.take_succ_cons,
        List.reverse_cons, List.findSome?_append]
      generalize (sourcesFrom _ rest)[k]? = here at later ⊢
      generalize (sourcesFrom _ rest).getLast? = last at later ⊢
      generalize (rest.take (k + 1)).reverse.findSome? markedLine? = found at later ⊢
      cases here <;> cases last <;> cases found <;> simp_all

end LineMap

open LineMap

namespace Sketch

theorem isPrefixOf?_label (cs : List Char) (number : Nat) :
    markerStart.toList.isPrefixOf? (cs ++ ' ' :: (numberLabel number).toList) =
      (markerStart.toList.isPrefixOf? cs).map (· ++ ' ' :: (numberLabel number).toList) := by
  apply isPrefixOf?_append_of_apart
  intro c q ends
  have tails : c :: q ∈ markerChars.tails := (List.mem_tails _ _).2 ends
  have label : (numberLabel number).toList =
      '/' :: '/' :: ' ' :: 'L' :: (padded 4 number).toList := by
    simp [numberLabel]
  rw [label]
  -- only one end of the text of markers begins with a blank, and an underscore follows it
  simp only [markerChars, List.tails, List.mem_cons, List.cons.injEq, List.not_mem_nil, or_false,
    reduceCtorEq] at tails
  rcases tails with ⟨rfl, rfl⟩ | ⟨rfl, rfl⟩ | ⟨rfl, rfl⟩ | ⟨rfl, rfl⟩ | ⟨rfl, rfl⟩ | ⟨rfl, rfl⟩ |
    ⟨rfl, rfl⟩ | ⟨rfl, rfl⟩ | ⟨rfl, rfl⟩ | ⟨rfl, rfl⟩ | ⟨rfl, rfl⟩ | ⟨rfl, rfl⟩ | ⟨rfl, rfl⟩ |
    ⟨rfl, rfl⟩ | ⟨rfl, rfl⟩ <;> rfl

theorem markedLine?_numberedLine (number : Nat) (line : String) :
    markedLine? (numberedLine number line) = markedLine? line := by
  rw [numberedLine_eq]
  by_cases dark : dropBlanks line.toList = []
  · have blank : (trim line).isEmpty = true := by rw [trim, dark]; rfl
    rw [if_pos blank, markedLine?_of_differs (differs_numberLabel number), markedLine?, dark]
    rfl
  · have shown : ¬(trim line).isEmpty = true := by
      obtain ⟨c, rest, eq⟩ := List.exists_cons_of_ne_nil dark
      obtain ⟨more, trimmed⟩ := dropBlanksEnd_cons rest (head?_dropBlanks _ c (by rw [eq]; rfl))
      simp [trim, eq, trimmed]
    have stop : isDecimalDigit ' ' = false := by decide
    have behind : (line ++ " " ++ numberLabel number).toList =
        line.toList ++ ' ' :: (numberLabel number).toList := by simp
    rw [if_neg shown, markedLine?, markedLine?, behind, dropBlanks_append_of_ne_nil _ dark,
      isPrefixOf?_label]
    cases markerStart.toList.isPrefixOf? (dropBlanks line.toList) with
    | none => rfl
    | some rest =>
      have digits : (rest ++ ' ' :: (numberLabel number).toList).takeWhile isDecimalDigit =
          rest.takeWhile isDecimalDigit := by
        rw [List.takeWhile_append, List.takeWhile_cons, stop]
        split
        · exact (List.append_nil rest).trans ((List.takeWhile_prefix _).eq_of_length ‹_›).symm
        · rfl
      simp [digits]

theorem lines_numberLines (text : String) :
    lines (numberLines text) = (lines text).mapIdx fun k line => numberedLine (k + 1) line := by
  rw [numberLines, lines_unlines]
  · exact List.ext_getElem? fun k => by simp [Function.comp_def, physical_numberedLine]
  · intro l mem
    obtain ⟨k, inside, rfl⟩ := List.mem_mapIdx.1 mem
    exact flat_numberedLine _ (flat_of_mem_lines (List.getElem_mem inside))

theorem sourcesFrom_congr {ls ms : List String} (current : Nat)
    (same : ls.map markedLine? = ms.map markedLine?) :
    sourcesFrom current ls = sourcesFrom current ms := by
  induction ls generalizing ms current with
  | nil =>
    obtain rfl := List.map_eq_nil_iff.1 same.symm
    rfl
  | cons l rest ih =>
    obtain ⟨m, more, rfl, here, there⟩ := List.map_eq_cons_iff.1 same.symm
    rw [sourcesFrom, sourcesFrom, here, ih _ there.symm]

/-- A numbered text has the lines of the text, each with its number at the end, and its line map. -/
theorem numbering_keeps_line_map (text : String) :
    (lines (numberLines text)).length = (lines text).length ∧
      (∀ k, ∀ line ∈ (lines (numberLines text))[k]?,
        endsWith line ("// L" ++ padded 4 (k + 1)) = true) ∧
      LineMap.ofText (numberLines text) = LineMap.ofText text ∧
      ∀ k, LastMark ((lines text).take (k + 1)) ((LineMap.ofText text).sourceLine (k + 1)) := by
  refine ⟨by simp [lines_numberLines], fun k line mem => ?_, ?_, fun k => ?_⟩
  · rw [lines_numberLines, List.getElem?_mapIdx] at mem
    obtain ⟨source, -, rfl⟩ := Option.map_eq_some_iff.1 mem
    rw [endsWith, List.isSuffixOf_iff_suffix, numberedLine_eq]
    split
    · exact List.suffix_rfl
    · exact ⟨(source ++ " ").toList, String.toList_append.symm⟩
  · rw [LineMap.ofText, LineMap.ofText, lines_numberLines]
    congr 1
    apply sourcesFrom_congr
    exact List.ext_getElem? fun k => by simp [Function.comp_def, markedLine?_numberedLine]
  · have last := lastMark_findSome? ((lines text).take (k + 1))
    rwa [← sourcesFrom_at] at last

end Sketch

end BasicSketch
