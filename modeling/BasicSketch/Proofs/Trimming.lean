import BasicSketch.Text.Blank

set_option autoImplicit false

/-! Blanks at the ends of a text: where there are none, and what is left once they are dropped. -/

namespace BasicSketch.Text

theorem exists_blanks_front (cs : List Char) :
    ∃ gap, (∀ c ∈ gap, isBlank c = true) ∧ gap ++ dropBlanks cs = cs :=
  ⟨cs.takeWhile isBlank, fun c mem => List.all_eq_true.1 List.all_takeWhile c mem,
    List.takeWhile_append_dropWhile⟩

theorem exists_blanks_end (cs : List Char) :
    ∃ gap, (∀ c ∈ gap, isBlank c = true) ∧ dropBlanksEnd cs ++ gap = cs := by
  obtain ⟨gap, white, whole⟩ := exists_blanks_front cs.reverse
  refine ⟨gap.reverse, fun c mem => white c (List.mem_reverse.1 mem), ?_⟩
  rw [dropBlanksEnd, ← List.reverse_append, whole, List.reverse_reverse]

variable {cs : List Char}

theorem dropBlanks_eq_self (first : ∀ c ∈ cs.head?, isBlank c = false) : dropBlanks cs = cs := by
  cases cs with
  | nil => rfl
  | cons c rest => rw [dropBlanks, List.dropWhile_cons, first c rfl, if_neg Bool.false_ne_true]

theorem head?_dropBlanks (cs : List Char) : ∀ c ∈ (dropBlanks cs).head?, isBlank c = false := by
  intro c mem
  have found := List.head?_dropWhile_not isBlank cs
  rw [dropBlanks] at mem
  rw [Option.mem_def.1 mem] at found
  simpa using found

theorem head?_dropBlanksEnd (first : ∀ c ∈ cs.head?, isBlank c = false) :
    ∀ c ∈ (dropBlanksEnd cs).head?, isBlank c = false := by
  cases cs with
  | nil => simp [dropBlanksEnd, dropBlanks]
  | cons c rest =>
    have here : isBlank c = false := first c rfl
    have stays : [c].dropWhile isBlank = [c] := by simp [here]
    rw [dropBlanksEnd, dropBlanks, List.reverse_cons, List.dropWhile_append, stays]
    split <;> simp [here]

theorem dropBlanksEnd_eq_self (last : ∀ c ∈ cs.getLast?, isBlank c = false) :
    dropBlanksEnd cs = cs := by
  rw [dropBlanksEnd, dropBlanks_eq_self (by simpa using last), List.reverse_reverse]

theorem dropBlanksEnd_dropBlanksEnd (cs : List Char) :
    dropBlanksEnd (dropBlanksEnd cs) = dropBlanksEnd cs := by
  rw [dropBlanksEnd, dropBlanksEnd, List.reverse_reverse, dropBlanks_eq_self (head?_dropBlanks _)]

theorem trim_trim (s : String) : trim (trim s) = trim s := by
  have first := head?_dropBlanksEnd (head?_dropBlanks s.toList)
  rw [trim, toList_trim, dropBlanks_eq_self first, dropBlanksEnd_dropBlanksEnd, trim]

theorem trim_eq_of_ends {s : String} (first : ∀ c ∈ s.toList.head?, isBlank c = false)
    (last : ∀ c ∈ s.toList.getLast?, isBlank c = false) : trim s = s := by
  rw [trim, dropBlanks_eq_self first, dropBlanksEnd_eq_self last, String.ofList_toList]

theorem dropBlanks_append_of_ne_nil (tail : List Char) (dark : dropBlanks cs ≠ []) :
    dropBlanks (cs ++ tail) = dropBlanks cs ++ tail := by
  unfold dropBlanks at *
  rw [List.dropWhile_append]
  simp [dark]

theorem dropBlanksEnd_append_of_ne_nil {tail : List Char} (cs : List Char)
    (dark : dropBlanksEnd tail ≠ []) : dropBlanksEnd (cs ++ tail) = cs ++ dropBlanksEnd tail := by
  have back : dropBlanks tail.reverse ≠ [] := by simpa [dropBlanksEnd] using dark
  rw [dropBlanksEnd, List.reverse_append, dropBlanks_append_of_ne_nil _ back]
  simp [dropBlanksEnd]

theorem getLast?_dropBlanks {c : Char} (last : cs.getLast? = some c) (dark : isBlank c = false) :
    (dropBlanks cs).getLast? = some c := by
  obtain ⟨front, rfl⟩ := List.getLast?_eq_some_iff.1 last
  have stays : [c].dropWhile isBlank = [c] := by simp [dark]
  rw [dropBlanks, List.dropWhile_append, stays]
  split <;> simp

theorem dropBlanksEnd_append {cs gap : List Char} (white : ∀ c ∈ gap, isBlank c = true) :
    dropBlanksEnd (cs ++ gap) = dropBlanksEnd cs := by
  rw [dropBlanksEnd, List.reverse_append, dropBlanks, List.dropWhile_append_of_pos]
  · rfl
  · simpa using white

theorem trim_append {gap : List Char} (white : ∀ c ∈ gap, isBlank c = true) :
    dropBlanksEnd (dropBlanks (cs ++ gap)) = dropBlanksEnd (dropBlanks cs) := by
  have gone : gap.dropWhile isBlank = [] := by
    simpa using @List.dropWhile_append_of_pos _ isBlank gap [] white
  rw [dropBlanks, List.dropWhile_append]
  split
  · rename_i none
    rw [gone, dropBlanks, List.isEmpty_iff.1 none]
  · exact dropBlanksEnd_append white

end BasicSketch.Text
