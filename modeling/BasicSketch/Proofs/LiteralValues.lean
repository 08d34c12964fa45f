import BasicSketch.Proofs.ExpressionParts
import Mathlib.Data.List.Induction

set_option autoImplicit false

/-! Integer literals, in both languages. -/

namespace BasicSketch

namespace Text

def digitValue (c : Char) : Nat :=
  if c.isDigit then c.toNat - 48
  else if 'A' ≤ c ∧ c ≤ 'F' then c.toNat - 55
  else if 'a' ≤ c ∧ c ≤ 'f' then c.toNat - 87
  else 16

def valueIn (base : Nat) (cs : List Char) : Nat :=
  cs.foldl (fun n c => base * n + digitValue c) 0

def numeral? (base : Nat) (cs : List Char) : Option Nat :=
  if cs ≠ [] ∧ cs.all (digitValue · < base) then some (valueIn base cs) else none

variable {base : Nat} {cs : List Char} {c : Char}

theorem valueIn_concat (base : Nat) (cs : List Char) (c : Char) :
    valueIn base (cs ++ [c]) = base * valueIn base cs + digitValue c := by
  simp [valueIn]

theorem valueIn_zero_cons (base : Nat) (cs : List Char) :
    valueIn base ('0' :: cs) = valueIn base cs := by
  have zero : digitValue '0' = 0 := rfl
  simp [valueIn, zero]

theorem valueIn_mono {small large : Nat} (le : small ≤ large) (cs : List Char) :
    valueIn small cs ≤ valueIn large cs := by
  induction cs using List.reverseRecOn with
  | nil => exact Nat.le_refl 0
  | append_singleton cs c ih =>
    rw [valueIn_concat, valueIn_concat]
    exact Nat.add_le_add_right (Nat.mul_le_mul le ih) _

theorem digitValue_le_valueIn (positive : 0 < base) (mem : c ∈ cs) :
    digitValue c ≤ valueIn base cs := by
  induction cs using List.reverseRecOn with
  | nil => simp at mem
  | append_singleton cs d ih =>
    rw [valueIn_concat]
    rcases List.mem_append.1 mem with earlier | last
    · have grows := Nat.le_mul_of_pos_left (valueIn base cs) positive
      have within := ih earlier
      omega
    · obtain rfl := List.mem_singleton.1 last
      exact Nat.le_add_left _ _

theorem numeral?_of_digits (full : cs ≠ []) (digits : ∀ c ∈ cs, digitValue c < base) :
    numeral? base cs = some (valueIn base cs) :=
  if_pos ⟨full, by simpa using digits⟩

theorem numeral?_octal_iff (full : cs ≠ []) :
    numeral? 8 cs = some (valueIn 10 cs) ↔ valueIn 10 cs < 8 := by
  obtain ⟨ds, d, rfl⟩ := (List.eq_nil_or_concat cs).resolve_left full
  rw [List.concat_eq_append] at full ⊢
  have le := valueIn_mono (show 8 ≤ 10 by decide) ds
  -- all but the last digit count eight times in one base and ten times in the other, so that they
  -- must be zeros
  constructor
  · intro same
    rw [numeral?] at same
    split at same
    · rename_i octal
      have last : digitValue d < 8 := by simpa using List.all_eq_true.1 octal.2 d (by simp)
      have value := Option.some.inj same
      rw [valueIn_concat, valueIn_concat] at value
      rw [valueIn_concat]
      omega
    · cases same
  · intro small
    have digits : ∀ c ∈ ds ++ [d], digitValue c < 8 := fun c mem =>
      Nat.lt_of_le_of_lt (digitValue_le_valueIn (by decide) mem) small
    rw [numeral?_of_digits full digits, valueIn_concat, valueIn_concat]
    rw [valueIn_concat] at small
    congr 1
    omega

end Text

open Text

def TokenKind.radix? : TokenKind → Option Nat
  | .integer => some 10
  | .hex => some 16
  | .octal => some 8
  | .binary => some 2
  | _ => none

namespace Token

def digits (t : Token) : List Char :=
  if t.kind = .integer then t.text.toList else t.text.toList.drop 2

def number? (t : Token) : Option Nat := t.kind.radix?.bind fun base => numeral? base t.digits

variable {t : Token} {text : String} {base : Nat}

theorem matches_of_mem_ofLine (mem : t ∈ ofLine text) (known : t.kind ≠ .unknown) :
    t.kind.pattern.Matches t.text.toList := by
  obtain ⟨_, _, _, _, reads⟩ := (laid_ofLine text).reads t mem
  cases reads with
  | longest matched => exact matched
  | unclosed unknown => exact absurd unknown known

theorem digitValue_lt_ten {c : Char} (digit : c.isDigit = true) : digitValue c < 10 := by
  rw [digitValue, if_pos digit]
  simp only [Char.isDigit, Bool.and_eq_true, decide_eq_true_eq] at digit
  have most : c.toNat ≤ 57 := digit.2
  omega

theorem digitValue_lt_sixteen {c : Char} (digit : isHexDigit c = true) : digitValue c < 16 := by
  rw [digitValue]
  split
  · rename_i decimal
    have small := digitValue_lt_ten decimal
    rw [digitValue, if_pos decimal] at small
    omega
  split
  · rename_i upper
    have most : c.toNat ≤ 70 := upper.2
    omega
  split
  · rename_i lower
    have most : c.toNat ≤ 102 := lower.2
    omega
  · simp_all [isHexDigit]

theorem digitValue_lt_eight {c : Char} (digit : isOctalDigit c = true) : digitValue c < 8 := by
  simp only [isOctalDigit, Bool.and_eq_true, decide_eq_true_eq] at digit
  have least : 48 ≤ c.toNat := digit.1
  have most : c.toNat ≤ 55 := digit.2
  have decimal : c.isDigit = true := by
    simpa [Char.isDigit] using ⟨digit.1, Nat.le_trans most (by decide)⟩
  rw [digitValue, if_pos decimal]
  omega

theorem digitValue_lt_two {c : Char} (digit : isBinaryDigit c = true) : digitValue c < 2 := by
  simp only [isBinaryDigit, Bool.or_eq_true, beq_iff_eq] at digit
  rcases digit with rfl | rfl <;> decide

theorem digits_of_mem_ofLine (mem : t ∈ ofLine text) (literal : t.kind.radix? = some base) :
    t.digits ≠ [] ∧ ∀ c ∈ t.digits, digitValue c < base := by
  have known : t.kind ≠ .unknown := fun unknown => by simp [unknown, TokenKind.radix?] at literal
  have matched := matches_of_mem_ofLine mem known
  -- the three that have a base in front differ in the letter and in what is a digit
  have based (letter digit : Char → Bool) (is : t.kind ≠ .integer)
      (matched : (TokenKind.based letter digit).Matches t.text.toList)
      (small : ∀ {c : Char}, digit c = true → digitValue c < base) :
      t.digits ≠ [] ∧ ∀ c ∈ t.digits, digitValue c < base := by
    obtain ⟨_, d, spelled, -, full, digits⟩ := matches_based.1 matched
    rw [Token.digits, if_neg is, spelled]
    exact ⟨full, fun c mem => small (digits c mem)⟩
  cases kind : t.kind with
  | integer =>
    rw [kind] at literal matched
    obtain rfl := Option.some.inj literal
    obtain ⟨full, digits⟩ := Pattern.matches_atLeastOne.1 matched
    rw [Token.digits, if_pos kind]
    exact ⟨full, fun c mem => digitValue_lt_ten (digits c mem)⟩
  | hex =>
    rw [kind] at literal matched
    obtain rfl := Option.some.inj literal
    exact based _ _ (by simp [kind]) matched digitValue_lt_sixteen
  | octal =>
    rw [kind] at literal matched
    obtain rfl := Option.some.inj literal
    exact based _ _ (by simp [kind]) matched digitValue_lt_eight
  | binary =>
    rw [kind] at literal matched
    obtain rfl := Option.some.inj literal
    exact based _ _ (by simp [kind]) matched digitValue_lt_two
  | _ => simp [kind, TokenKind.radix?] at literal

theorem number?_of_mem_ofLine (mem : t ∈ ofLine text) (literal : t.kind.radix? = some base) :
    t.number? = some (valueIn base t.digits) := by
  obtain ⟨full, digits⟩ := digits_of_mem_ofLine mem literal
  rw [number?, literal, Option.bind_some, numeral?_of_digits full digits]

end Token

namespace Cpp

/-- An integer literal without a suffix. A zero in front makes it octal. -/
def literal? : List Char → Option Nat
  | '0' :: 'x' :: ds | '0' :: 'X' :: ds => numeral? 16 ds
  | '0' :: 'b' :: ds | '0' :: 'B' :: ds => numeral? 2 ds
  | '0' :: ds => numeral? 8 ('0' :: ds)
  | ds => numeral? 10 ds

def literalText (t : Token) : List Char :=
  match t.kind with
  | .hex => '0' :: 'x' :: t.digits
  | .octal => '0' :: t.digits
  | .binary => '0' :: 'b' :: t.digits
  | _ => t.digits

variable {t : Token} {base : Nat} {text : String}

theorem write_literal (literal : t.kind.radix? = some base) (σ : Symbols) (mode : Mode)
    (before rest : List Token) :
    write σ mode before (t :: rest) =
      gapText before t ++ String.ofList (literalText t) ++ write σ mode (t :: before) rest := by
  have spelled : (t.kind == .keyword .New) = false ∧ t.isWord = false ∧
      spelling σ mode before t rest = String.ofList (literalText t) := by
    cases kind : t.kind with
    | integer | hex | octal | binary =>
      refine ⟨by simp, by simp [Token.isWord, TokenKind.isWord, kind], String.toList_injective ?_⟩
      simp [spelling, literalText, Token.digits, kind]
    | _ => simp [kind, TokenKind.radix?] at literal
  rw [write_other spelled.1 (by simp [spelled.2.1]), spelled.2.2]

theorem literal?_octal {ds : List Char} (decimal : ∀ c ∈ ds, digitValue c < 10) :
    literal? ('0' :: ds) = numeral? 8 ('0' :: ds) := by
  -- `x` and `b` are no decimal digits
  have noLetter {c : Char} (letter : 10 ≤ digitValue c) (more : List Char) : ds ≠ c :: more :=
    fun eq => absurd (decimal c (eq ▸ List.mem_cons_self)) (Nat.not_lt.2 letter)
  rw [literal?]
  all_goals exact noLetter (by decide)

theorem literal?_decimal {cs : List Char} (nonzero : cs.head? ≠ some '0') :
    literal? cs = numeral? 10 cs := by
  rw [literal?]
  all_goals
    rintro more rfl
    exact nonzero rfl

theorem literal?_literalText (mem : t ∈ Token.ofLine text) (literal : t.kind.radix? = some base) :
    literal? (literalText t) =
      if t.kind = .integer ∧ t.digits.head? = some '0' then numeral? 8 t.digits
      else some (valueIn base t.digits) := by
  obtain ⟨full, digits⟩ := Token.digits_of_mem_ofLine mem literal
  cases kind : t.kind with
  | integer =>
    rw [kind] at literal
    obtain rfl := Option.some.inj literal
    simp only [literalText, kind, true_and]
    split
    · rename_i zero
      obtain ⟨ds, eq⟩ := List.head?_eq_some_iff.1 zero
      rw [eq] at digits ⊢
      exact literal?_octal fun c mem => digits c (List.mem_cons_of_mem _ mem)
    · rename_i nonzero
      rw [literal?_decimal nonzero, numeral?_of_digits full digits]
  | hex =>
    rw [kind] at literal
    obtain rfl := Option.some.inj literal
    simp [literalText, kind, literal?, numeral?_of_digits full digits]
  | octal =>
    rw [kind] at literal
    obtain rfl := Option.some.inj literal
    have zero : ∀ c ∈ '0' :: t.digits, digitValue c < 8 :=
      List.forall_mem_cons.2 ⟨by decide, digits⟩
    have decimal : ∀ c ∈ t.digits, digitValue c < 10 := fun c mem =>
      Nat.lt_of_lt_of_le (digits c mem) (by decide)
    simp [literalText, kind, literal?_octal decimal, numeral?_of_digits (by simp) zero,
      valueIn_zero_cons]
  | binary =>
    rw [kind] at literal
    obtain rfl := Option.some.inj literal
    simp [literalText, kind, literal?, numeral?_of_digits full digits]
  | _ => simp [kind, TokenKind.radix?] at literal

theorem part_at {front rest : List Token} (inner : isBorder t = false) (word : t.isWord = false)
    (σ : Symbols) (mode : Mode) :
    ∃ use before r, Part σ ⟨mode, [], front ++ t :: rest⟩ ⟨use, before, t :: r⟩ := by
  cases made : behindNew front with
  | false =>
    obtain ⟨use, before, r, part, -⟩ := beginsPart σ inner mode [] front rest made
    exact ⟨use, before, r, part⟩
  | true =>
    -- the part begins at `New`, and goes on with the token
    obtain ⟨f, new, rfl, kind, fresh⟩ := exists_of_behindNew made
    obtain ⟨use, before, r, part, begins, -⟩ := @beginsPart new σ (by simp [isBorder, kind]) mode []
      f (t :: rest) fresh
    obtain ⟨r', rfl⟩ := begins.head inner
    have text : Place.text σ ⟨use, before, new :: t :: r'⟩ =
        _ ++ Place.text σ ⟨use, new :: before, t :: r'⟩ := write_new_alone kind word
    rw [List.append_assoc]
    exact ⟨use, new :: before, r', part.trans (.tail _ text (.refl _))⟩

/-- An integer literal keeps its value, unless it is a decimal one that begins with a zero: C++
reads that in base eight. -/
theorem literal_value_kept_iff {front rest : List Token}
    (tokens : Token.ofLine text = front ++ t :: rest) (literal : t.kind.radix? = some base)
    (σ : Symbols) (mode : Mode) :
    ∃ n written, t.number? = some n ∧
      (∀ use before r, write σ use before (t :: r) =
        gapText before t ++ String.ofList written ++ write σ use (t :: before) r) ∧
      (∃ use before r, Part σ ⟨mode, [], Token.ofLine text⟩ ⟨use, before, t :: r⟩) ∧
      literal? written = (if t.kind = .integer ∧ t.digits.head? = some '0' then
        numeral? 8 t.digits else some n) ∧
      (literal? written = some n ↔ t.kind = .integer → t.digits.head? = some '0' → n < 8) := by
  have mem : t ∈ Token.ofLine text := by simp [tokens]
  have value := literal?_literalText mem literal
  obtain ⟨full, -⟩ := Token.digits_of_mem_ofLine mem literal
  refine ⟨valueIn base t.digits, literalText t, Token.number?_of_mem_ofLine mem literal,
    fun use before r => write_literal literal σ use before r, ?_, value, ?_⟩
  · have plain : isBorder t = false ∧ t.isWord = false := by
      cases kind : t.kind <;>
        simp_all [TokenKind.radix?, isBorder, Token.isWord, TokenKind.isWord]
    rw [tokens]
    exact part_at plain.1 plain.2 σ mode
  · rw [value]
    split
    · rename_i octal
      rw [octal.1] at literal
      obtain rfl := Option.some.inj literal
      rw [numeral?_octal_iff full]
      exact ⟨fun small _ _ => small, fun small => small octal.1 octal.2⟩
    · rename_i plain
      exact ⟨fun _ decimal zero => absurd ⟨decimal, zero⟩ plain, fun _ => rfl⟩

theorem literal_value_lost :
    let t : Token := ⟨.integer, "", "010", 0⟩
    Token.ofLine "010" = [] ++ t :: [] ∧ t.kind.radix? = some 10 ∧ t.number? = some 10 ∧
      ∀ σ, ∃ written, write σ .value [] (Token.ofLine "010") = String.ofList written ∧
        literal? written = some 8 := by
  intro t
  have tokens : Token.ofLine "010" = [] ++ t :: [] := by decide +kernel
  refine ⟨tokens, rfl, by decide, fun σ => ?_⟩
  obtain ⟨n, written, -, writes, -, octal, -⟩ := literal_value_kept_iff tokens rfl σ .value
  refine ⟨written, ?_, octal.trans ((if_pos ⟨rfl, by decide⟩).trans (by decide))⟩
  rw [tokens, List.nil_append, writes]
  simp [gapText, write]

end Cpp

end BasicSketch
