import Mathlib.Data.List.TakeWhile
import BasicSketch.Proofs.PlainExpression
import BasicSketch.Sketch.Basic

set_option autoImplicit false

/-! Whole numbers as texts. -/

namespace BasicSketch

open Token Text

namespace Token

theorem reads_digits {d : List Char} (full : d ≠ []) (digits : ∀ c ∈ d, c.isDigit = true) :
    Reads .integer d [] := by
  obtain ⟨c, more, rfl⟩ := List.exists_cons_of_ne_nil full
  have digit := digits c List.mem_cons_self
  have all : run Char.isDigit (c :: more) = (c :: more).length := by
    rw [run, List.takeWhile_eq_self_iff.2 digits]
  have number : scan c (more ++ []) = scanNumber (c :: more) := by
    have other : ¬(c.isAlpha || c == '_') = true := fun start => by
      rw [not_isDigit_of_start start] at digit
      cases digit
    rw [List.append_nil, scan, if_neg other, if_pos digit]
  refine reads_of_scan (Bool.eq_false_iff.2 fun gap => ?_) ?_
  · have blank := isBlank_of_isGap gap
    rw [not_isBlank_of_isNameChar (isNameChar_of_isDigit digit)] at blank
    cases blank
  · rw [number, scanNumber, all, List.drop_length]
    rfl

theorem reads_minus {d : List Char} (digits : ∀ c ∈ d, c.isDigit = true) :
    Reads (.symbol .minus) ['-'] d := by
  refine reads_of_scan (by decide) ?_
  cases d with
  | nil => rfl
  | cons c d =>
    have other : c ≠ '>' := by
      rintro rfl
      cases digits '>' List.mem_cons_self
    simp [scan, scanSymbol, other]

end Token

def IsDecimal (text : String) : Prop :=
  ∃ d, d ≠ [] ∧ (∀ c ∈ d, c.isDigit = true) ∧ (text.toList = d ∨ text.toList = '-' :: d)

theorem isDecimal_of_readDigits? {text : String} {d : List Char} {n : Nat}
    (read : readDigits? d = some n) (chars : text.toList = d ∨ text.toList = '-' :: d) :
    IsDecimal text := by
  unfold readDigits? at read
  split at read
  · cases read
  · rename_i digits
    simp only [Bool.or_eq_true, List.isEmpty_iff, Bool.not_eq_true', not_or] at digits
    exact ⟨d, digits.1, by simpa using digits.2, chars⟩

theorem isDecimal_of_integer? {e : Expr} {n : Int} (read : e.integer? = some n) :
    IsDecimal e.text := by
  unfold Expr.integer? at read
  split at read
  · cases read
  · rename_i unsigned
    obtain ⟨found, -⟩ := Option.filter_eq_some_iff.1 read
    split at found
    · rename_i eq
      exact absurd eq (unsigned _)
    · rename_i rest eq
      obtain ⟨m, digits, -⟩ := Option.map_eq_some_iff.1 found
      exact isDecimal_of_readDigits? digits (.inr eq)
    · obtain ⟨m, digits, -⟩ := Option.map_eq_some_iff.1 found
      exact isDecimal_of_readDigits? digits (.inl rfl)

namespace IsDecimal

variable {text : String} (decimal : IsDecimal text)

include decimal

theorem kind_of_mem : ∀ t ∈ ofLine text, t.kind = .integer ∨ t.kind = .symbol .minus := by
  obtain ⟨d, full, digits, chars⟩ := decimal
  have number (start : Nat) : Laid start d [⟨.integer, "", String.ofList d, start⟩] := by
    have laid := Laid.bare start (reads_digits full digits) (.ended _)
    rwa [List.append_nil] at laid
  have laid := laid_ofLine text
  rcases chars with eq | eq <;> rw [eq] at laid
  · rw [laid.unique (number 0) rfl]
    simp
  · rw [laid.unique (Laid.bare 0 (reads_minus digits) (number _)) rfl]
    simp

theorem not_isBlank : ∀ c ∈ text.toList, isBlank c = false := by
  obtain ⟨d, -, digits, chars⟩ := decimal
  have dark : ∀ c ∈ d, isBlank c = false := fun c mem =>
    not_isBlank_of_isNameChar (isNameChar_of_isDigit (digits c mem))
  rcases chars with eq | eq <;> rw [eq]
  · exact dark
  · exact List.forall_mem_cons.2 ⟨by decide, dark⟩

theorem tight : trim text = text :=
  trim_eq_of_ends (fun c mem => decimal.not_isBlank c (List.mem_of_mem_head? mem))
    fun c mem => decimal.not_isBlank c (List.mem_of_mem_getLast? mem)

theorem plain (σ : Symbols) : Cpp.Plain σ [] (ofLine text) := by
  -- whatever is before them, since neither a number nor a sign looks at its neighbours
  have all {ts before : List Token}
      (known : ∀ t ∈ ts, t.kind = .integer ∨ t.kind = .symbol .minus) : Cpp.Plain σ before ts := by
    induction ts generalizing before with
    | nil => trivial
    | cons t ts ih =>
      obtain ⟨here, later⟩ := List.forall_mem_cons.1 known
      refine ⟨?_, ih later⟩
      rcases here with kind | kind <;> simp [Cpp.LeftAlone, kind]
  exact all decimal.kind_of_mem

end IsDecimal

namespace Sketch

variable {s : Sketch}

theorem value_plain {a : String} (tight : trim a = a)
    (plain : Cpp.Plain s.symbols [] (ofLine a)) : s.value ⟨a⟩ = a := by
  rw [value, Cpp.value, Cpp.expression, plain.write_eq_slice fun u => lexeme_of_mem_ofLine,
    trim_slice_ofLine, tight]

theorem value_decimal {e : Expr} (decimal : IsDecimal e.text) : s.value e = e.text :=
  value_plain decimal.tight (decimal.plain s.symbols)

end Sketch

end BasicSketch
