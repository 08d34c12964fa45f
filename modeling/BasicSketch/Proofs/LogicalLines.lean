import BasicSketch.LogicalLine
import BasicSketch.Proofs.Flat

set_option autoImplicit false

/-!
The logical lines of a source: their numbers increase within those of the physical lines, and their
texts have no line feed.
-/

namespace BasicSketch

open Text

namespace LogicalLine

def extended (number : Nat) (pending : Pending) (physical : String) : Nat × String :=
  match pending with
  | none => (number, trim (stripComment physical))
  | some (first, head) => (first, head ++ " " ++ trim (stripComment physical))

theorem join_cons (number : Nat) (pending : Pending) (physical : String) (rest : List String) :
    join number pending (physical :: rest) =
      match continued? (extended number pending physical).2 with
      | some head => join (number + 1) (some ((extended number pending physical).1, head)) rest
      | none =>
        finish (extended number pending physical).1 (extended number pending physical).2 ++
          join (number + 1) none rest := by
  cases pending with
  | none =>
    cases continued : continued? (trim (stripComment physical)) <;>
      simp only [join, extended, continued]
  | some p =>
    cases continued : continued? (p.2 ++ " " ++ trim (stripComment physical)) <;>
      simp only [join, extended, continued]

theorem join_nil_some (number first : Nat) (head : String) :
    join number (some (first, head)) [] = finish first head := rfl

def firstNumber (number : Nat) : Pending → Nat
  | none => number
  | some (first, _) => first

theorem extended_number (number : Nat) (pending : Pending) (physical : String) :
    (extended number pending physical).1 = firstNumber number pending := by
  cases pending <;> rfl

variable {l : LogicalLine} {number : Nat} {text source : String}

theorem number_of_mem_finish (mem : l ∈ finish number text) : l.number = number := by
  simp only [finish] at mem
  split at mem
  · simp at mem
  · simp_all

theorem finish_increasing (number : Nat) (text : String) :
    (finish number text).Pairwise (fun a b => a.number < b.number) := by
  simp only [finish]
  split <;> simp

variable {pending : Pending} {ls : List String}

theorem firstNumber_le_of_mem_join (before : firstNumber number pending ≤ number)
    (mem : l ∈ join number pending ls) : firstNumber number pending ≤ l.number := by
  induction ls generalizing number pending with
  | nil =>
    cases pending with
    | none => cases mem
    | some p => exact Nat.le_of_eq (number_of_mem_finish (join_nil_some .. ▸ mem)).symm
  | cons physical rest ih =>
    rw [join_cons, extended_number] at mem
    split at mem
    · rename_i head _
      exact @ih _ (some (_, head)) (Nat.le_succ_of_le before) mem
    · rcases List.mem_append.1 mem with here | later
      · exact Nat.le_of_eq (number_of_mem_finish here).symm
      · have after := @ih _ none (Nat.le_refl _) later
        simp only [firstNumber] at after
        omega

theorem number_lt_of_mem_join (before : ∀ p ∈ pending, p.1 < number)
    (mem : l ∈ join number pending ls) :
    l.number < number + ls.length := by
  have first : firstNumber number pending ≤ number := by
    cases pending with
    | none => exact Nat.le_refl _
    | some p => exact Nat.le_of_lt (before p rfl)
  induction ls generalizing number pending with
  | nil =>
    cases pending with
    | none => cases mem
    | some p =>
      have same := number_of_mem_finish (join_nil_some .. ▸ mem)
      have earlier := before p rfl
      simp only [List.length_nil]
      omega
  | cons physical rest ih =>
    rw [join_cons, extended_number] at mem
    simp only [List.length_cons]
    split at mem
    · rename_i head _
      have later := @ih (number + 1) (some (firstNumber number pending, head))
        (by simpa using Nat.lt_succ_of_le first) mem (Nat.le_succ_of_le first)
      omega
    · rcases List.mem_append.1 mem with here | later
      · have same := number_of_mem_finish here
        omega
      · have after := @ih (number + 1) none (by simp) later (Nat.le_refl _)
        omega

theorem join_increasing (before : firstNumber number pending ≤ number) :
    (join number pending ls).Pairwise (fun a b => a.number < b.number) := by
  induction ls generalizing number pending with
  | nil =>
    cases pending with
    | none => exact .nil
    | some p => exact join_nil_some .. ▸ finish_increasing _ _
  | cons physical rest ih =>
    rw [join_cons, extended_number]
    split
    · rename_i head _
      exact @ih _ (some (_, head)) (Nat.le_succ_of_le before)
    · refine List.pairwise_append.2 ⟨finish_increasing _ _, ih (Nat.le_refl _), ?_⟩
      intro a here b later
      have first := number_of_mem_finish here
      have after := @firstNumber_le_of_mem_join _ _ none _ (Nat.le_refl _) later
      simp only [firstNumber] at after
      omega

theorem ofSource_increasing (source : String) :
    (ofSource source).Pairwise (fun a b => a.number < b.number) :=
  join_increasing (Nat.le_refl 1)

theorem number_pos_of_mem_ofSource (mem : l ∈ ofSource source) : 0 < l.number :=
  @firstNumber_le_of_mem_join _ 1 none _ (Nat.le_refl 1) mem

theorem number_le_of_mem_ofSource (mem : l ∈ ofSource source) :
    l.number ≤ (Text.lines source).length := by
  have below := @number_lt_of_mem_join _ 1 none _ (by simp) mem
  omega

theorem mem_of_mem_beforeComment {quoted inWord : Bool} {cs : List Char} {c : Char}
    (mem : c ∈ beforeComment quoted inWord cs) : c ∈ cs := by
  induction cs generalizing quoted inWord with
  | nil => simp [beforeComment] at mem
  | cons d rest ih =>
    simp only [beforeComment] at mem
    split at mem
    · rcases List.mem_cons.1 mem with rfl | later
      · exact List.mem_cons_self
      · exact List.mem_cons_of_mem _ (ih later)
    · split at mem
      · simp at mem
      · rcases List.mem_cons.1 mem with rfl | later
        · exact List.mem_cons_self
        · exact List.mem_cons_of_mem _ (ih later)

theorem flat_stripComment {line : String} (flat : Flat line) : Flat (stripComment line) :=
  flat_ofList_of_subset flat fun _ mem => mem_of_mem_beforeComment mem

theorem flat_continued? {head : String} (flat : Flat text)
    (continued : continued? text = some head) : Flat head := by
  unfold continued? at continued
  split at continued
  · obtain rfl := Option.some.inj continued
    decide
  · rename_i c before eq
    split at continued
    · obtain rfl := Option.some.inj continued
      apply flat_ofList_of_subset flat
      intro d mem
      have inside := mem_of_mem_dropBlanks (List.mem_reverse.1 mem)
      rw [← List.mem_reverse, eq]
      exact List.mem_cons_of_mem _ inside
    · simp at continued
  · simp at continued

theorem flat_of_mem_finish (flat : Flat text) (mem : l ∈ finish number text) : Flat l.text := by
  simp only [finish] at mem
  split at mem
  · simp at mem
  · obtain rfl := List.mem_singleton.1 mem
    exact flat_trim flat

theorem flat_extended {physical : String} (flatHead : ∀ p ∈ pending, Flat p.2)
    (flat : Flat physical) : Flat (extended number pending physical).2 := by
  have flatCode : Flat (trim (stripComment physical)) := flat_trim (flat_stripComment flat)
  cases pending with
  | none => exact flatCode
  | some p =>
    simp only [extended, flat_append]
    exact ⟨⟨flatHead p rfl, flat_text rfl⟩, flatCode⟩

theorem flat_of_mem_join (flatHead : ∀ p ∈ pending, Flat p.2) (flat : ∀ line ∈ ls, Flat line)
    (mem : l ∈ join number pending ls) : Flat l.text := by
  induction ls generalizing number pending with
  | nil =>
    cases pending with
    | none => cases mem
    | some p => exact flat_of_mem_finish (flatHead p rfl) (join_nil_some .. ▸ mem)
  | cons physical rest ih =>
    have flatRest : ∀ line ∈ rest, Flat line := fun line here =>
      flat line (List.mem_cons_of_mem _ here)
    have flatText :=
      @flat_extended number pending physical flatHead (flat physical List.mem_cons_self)
    rw [join_cons] at mem
    split at mem
    · rename_i head eq
      refine ih ?_ flatRest mem
      intro p same
      obtain rfl := Option.some.inj same
      exact flat_continued? flatText eq
    · rcases List.mem_append.1 mem with here | later
      · exact flat_of_mem_finish flatText here
      · exact ih (by simp) flatRest later

theorem flat_of_mem_ofSource (mem : l ∈ ofSource source) : Flat l.text :=
  flat_of_mem_join (by simp) (fun _ here => flat_of_mem_lines here) mem

end LogicalLine

end BasicSketch
