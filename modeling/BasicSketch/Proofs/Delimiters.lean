import BasicSketch.Proofs.CodeRegions

set_option autoImplicit false

/-! Brackets in a text. -/

namespace BasicSketch.Cpp

open Text

/-- What stands before a place in a text. -/
inductive Spot where
  | code
  | quoted
  | opened
  | filled
  deriving DecidableEq, Repr

/-- Goes over a character, where `stack` holds the brackets that are still to be closed. -/
def Spot.step : Spot × List Char → Char → Option (Spot × List Char)
  | (.code, stack), c =>
    match c with
    | '\x22' => some (.quoted, stack)
    | '\x27' => some (.opened, stack)
    | '(' => some (.code, ')' :: stack)
    | '[' => some (.code, ']' :: stack)
    | '\x7b' => some (.code, '\x7d' :: stack)
    | ')' | ']' | '\x7d' => if stack.head? = some c then some (.code, stack.tail) else none
    | _ => some (.code, stack)
  | (.quoted, stack), c => some (if c = '\x22' then .code else .quoted, stack)
  | (.opened, stack), _ => some (.filled, stack)
  | (.filled, stack), c => if c = '\x27' then some (.code, stack) else none

/-- From code to code, the text turns one stack into the other. -/
def Walks (i j : List Char) (text : String) : Prop :=
  text.toList.foldlM Spot.step (.code, i) = some (.code, j)

def Nested (text : String) : Prop := Walks [] [] text

instance (text : String) : Decidable (Nested text) := inferInstanceAs (Decidable (_ = _))

variable {i j k : List Char} {a b text : String}

theorem Walks.append (first : Walks i j a) (second : Walks j k b) : Walks i k (a ++ b) := by
  rw [Walks, String.toList_append, List.foldlM_append, first]
  exact second

def delimiters : List Char := ['\x22', '\x27', '(', ')', '[', ']', '\x7b', '\x7d']

def isDelimiter (c : Char) : Bool := delimiters.contains c

theorem not_isDelimiter {p : Char → Bool} {c : Char} (holds : p c = true)
    (apart : delimiters.any p = false) : isDelimiter c = false := by
  cases mark : isDelimiter c with
  | false => rfl
  | true => exact absurd holds (List.any_eq_false.1 apart c (List.contains_iff_mem.1 mark))

theorem step_plain {c : Char} (plain : isDelimiter c = false) :
    Spot.step (.code, i) c = some (.code, i) := by
  unfold Spot.step
  dsimp only
  split <;> first | rfl | simp [isDelimiter, delimiters] at plain

theorem walks_plain (plain : ∀ c ∈ text.toList, isDelimiter c = false) : Walks i i text := by
  rw [Walks]
  generalize text.toList = cs at plain
  induction cs with
  | nil => rfl
  | cons c rest ih =>
    obtain ⟨here, others⟩ := List.forall_mem_cons.1 plain
    rw [List.foldlM_cons, step_plain here]
    exact ih others

theorem walks_literal (plain : text.toList.any isDelimiter = false) : Walks i i text :=
  walks_plain fun c mem => by simpa using List.any_eq_false.1 plain c mem

theorem step_append {p q : Spot} {c : Char} (step : Spot.step (p, i) c = some (q, j)) :
    Spot.step (p, i ++ k) c = some (q, j ++ k) := by
  unfold Spot.step at step ⊢
  cases p <;> dsimp only at step ⊢
  case code =>
    split at step
    case h_6 | h_7 | h_8 =>
      split at step
      · rename_i top
        obtain ⟨below, rfl⟩ := List.head?_eq_some_iff.1 top
        cases step
        rfl
      · cases step
    all_goals
      cases step
      simp_all
  all_goals simp_all

theorem Nested.walks (nested : Nested text) : Walks i i text := by
  have below (cs : List Char) : ∀ {p q s s'}, cs.foldlM Spot.step (p, s) = some (q, s') →
      cs.foldlM Spot.step (p, s ++ i) = some (q, s' ++ i) := by
    induction cs with
    | nil =>
      intro p q s s' eq
      cases eq
      rfl
    | cons c rest ih =>
      intro p q s s' eq
      obtain ⟨⟨p', t⟩, step, eq⟩ := Option.bind_eq_some_iff.1 (List.foldlM_cons.symm.trans eq)
      rw [List.foldlM_cons]
      exact Option.bind_eq_some_iff.2 ⟨(p', t ++ i), step_append step, ih eq⟩
  exact below _ nested

theorem eq_of_blanks {gap : List Char} (white : ∀ c ∈ gap, isBlank c = true) {p : Spot}
    (eq : gap.foldlM Spot.step (p, i) = some (.code, j)) : p = .code ∧ i = j := by
  induction gap generalizing p i with
  | nil =>
    cases eq
    exact ⟨rfl, rfl⟩
  | cons c rest ih =>
    obtain ⟨here, others⟩ := List.forall_mem_cons.1 white
    have plain := not_isDelimiter here rfl
    obtain ⟨⟨p', s⟩, step, eq⟩ := Option.bind_eq_some_iff.1 (List.foldlM_cons.symm.trans eq)
    obtain ⟨rfl, rfl⟩ := ih others eq
    cases p with
    | code =>
      rw [step_plain plain] at step
      cases step
      exact ⟨rfl, rfl⟩
    | _ =>
      have other : c ≠ '\x22' ∧ c ≠ '\x27' := by constructor <;> rintro rfl <;> cases plain
      simp [Spot.step, other] at step

theorem Walks.trim (walks : Walks i j text) : Walks i j (trim text) := by
  obtain ⟨front, white, whole⟩ := exists_blanks_front text.toList
  obtain ⟨back, white', whole'⟩ := exists_blanks_end (dropBlanks text.toList)
  have ahead : Walks i i (String.ofList front) :=
    walks_plain fun c mem => not_isDelimiter (white c (by simpa using mem)) rfl
  rw [Walks, ← whole, ← whole', List.foldlM_append, ← String.toList_ofList (l := front), ahead]
    at walks
  obtain ⟨⟨p, s⟩, core, rest⟩ := Option.bind_eq_some_iff.1 (List.foldlM_append.symm.trans walks)
  obtain ⟨rfl, rfl⟩ := eq_of_blanks white' rest
  rw [Walks, toList_trim]
  exact core

end BasicSketch.Cpp
