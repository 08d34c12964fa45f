import BasicSketch.Proofs.ExpressionParts
import BasicSketch.Proofs.ParenGroups

set_option autoImplicit false

/-! Plain expressions. -/

namespace BasicSketch.Cpp

open Token Text

/-- The token is left alone, where `before` holds the tokens before it, nearest first, and `rest`
those behind it. -/
def LeftAlone (σ : Symbols) (before : List Token) (t : Token) (rest : List Token) : Prop :=
  match t.kind with
  | .integer | .float | .text | .unknown => True
  | .hex | .octal | .binary => False
  | .symbol .ampersand | .symbol .notEquals | .symbol .backslash => False
  | .symbol .dot => ∀ object ∈ before.head?, object.kind = .identifier → object.text ∉ σ.pointers
  | .symbol _ => True
  | .keyword .New => False
  | .keyword .And | .keyword .Or | .keyword .Not | .keyword .Xor | .keyword .Mod
  | .keyword .Is => False
  | .keyword _ | .identifier =>
    -- it stands for no constant and no colour, and is neither called nor indexed
    constants.lookup (lower t.text) = none ∧ σ.panel.color? t.text = none ∧
      ¬∃ inside close after, Group rest inside close after

def Plain (σ : Symbols) : (before : List Token) → List Token → Prop
  | _, [] => True
  | before, t :: rest => LeftAlone σ before t rest ∧ Plain σ (t :: before) rest

variable {σ : Symbols} {before rest : List Token} {t : Token}

theorem argumentList?_eq_none :
    argumentList? rest = none ↔ ¬∃ inside close after, Group rest inside close after := by
  simp only [← argumentList?_eq_some]
  cases argumentList? rest with
  | none => simp
  | some found => exact ⟨nofun, fun absent => absurd ⟨_, _, _, rfl⟩ absent⟩

instance : Decidable (∃ inside close after, Group rest inside close after) :=
  decidable_of_iff (argumentList? rest ≠ none) (by simp [argumentList?_eq_none])

instance : Decidable (LeftAlone σ before t rest) := by
  unfold LeftAlone
  split <;> infer_instance

instance decidablePlain : (before ts : List Token) → Decidable (Plain σ before ts)
  | _, [] => .isTrue trivial
  | before, t :: rest => @instDecidableAnd _ _ _ (decidablePlain (t :: before) rest)

namespace LeftAlone

variable (alone : LeftAlone σ before t rest)

include alone

theorem spelling_eq (lexeme : Lexeme t.kind t.text.toList) :
    spelling σ .value before t rest = t.text := by
  rw [LeftAlone] at alone
  rw [spelling]
  split <;> rename_i kind <;> simp only [kind, Lexeme] at alone lexeme
  · exact (String.toList_injective lexeme).symm
  · have other : followsPointer σ before t = false := by
      cases before with
      | nil => rfl
      | cons object more =>
        by_cases name : object.kind = .identifier
        · simp [followsPointer, Symbols.isPointer, alone object rfl name]
        · simp [followsPointer, name]
    rw [other]
    exact (String.toList_injective lexeme).symm
  · rfl

theorem write_cons (lexeme : Lexeme t.kind t.text.toList) :
    write σ .value before (t :: rest) =
      gapText before t ++ t.text ++ write σ .value (t :: before) rest := by
  have new : (t.kind == .keyword .New) = false := by
    rw [beq_eq_false_iff_ne]
    intro new
    simp [LeftAlone, new] at alone
  cases word : t.isWord && !isOperatorWord t.kind with
  | false => rw [write_other new word, alone.spelling_eq lexeme]
  | true =>
    have name : constants.lookup (lower t.text) = none ∧ σ.panel.color? t.text = none ∧
        ¬∃ inside close after, Group rest inside close after := by
      rw [LeftAlone] at alone
      split at alone <;> first | exact alone | simp_all [Token.isWord, TokenKind.isWord]
    obtain ⟨constant, color, bare⟩ := name
    rw [write_name new word (argumentList?_eq_none.2 bare), bareName, constant, color]
    simp

theorem kind_ne_not : t.kind ≠ .keyword .Not := by
  intro kind
  simp [LeftAlone, kind] at alone

end LeftAlone

theorem Plain.toList_write (plain : Plain σ (t :: before) rest) (other : t.kind ≠ .keyword .Not)
    (lexemes : ∀ u ∈ rest, Lexeme u.kind u.text.toList) :
    (write σ .value (t :: before) rest).toList = covered rest := by
  induction rest generalizing t before with
  | nil => rw [write.eq_def]; rfl
  | cons u rest ih =>
    obtain ⟨alone, more⟩ := plain
    rw [alone.write_cons (lexemes u List.mem_cons_self),
      covered_cons, String.toList_append, String.toList_append, gapText,
      if_neg (by simpa using other),
      ih more alone.kind_ne_not fun v mem => lexemes v (List.mem_cons_of_mem u mem),
        List.append_assoc]

theorem Plain.write_eq_slice {ts : List Token} (plain : Plain σ [] ts)
    (lexemes : ∀ u ∈ ts, Lexeme u.kind u.text.toList) : write σ .value [] ts = slice ts := by
  cases ts with
  | nil => rw [write.eq_def]; rfl
  | cons u rest =>
    obtain ⟨alone, more⟩ := plain
    apply String.toList_injective
    rw [alone.write_cons (lexemes u List.mem_cons_self), gapText, String.empty_append,
      String.toList_append, toList_slice,
      more.toList_write alone.kind_ne_not fun v mem => lexemes v (List.mem_cons_of_mem u mem)]

theorem expression_eq_trim {text : String} (plain : Plain σ [] (ofLine text)) :
    expression σ .value text = trim text := by
  rw [expression, plain.write_eq_slice fun u => lexeme_of_mem_ofLine, trim_slice_ofLine]

theorem expression_unclosed :
    Plain ⟨["p"], [], [], 0, none, false⟩ []
        (ofLine "  a.b +\t\x22x & y\x22=(3 ,4.5e2)^  \x7b g(2 § <=  p ") ∧
      expression ⟨["p"], [], [], 0, none, false⟩ .value
          "  a.b +\t\x22x & y\x22=(3 ,4.5e2)^  \x7b g(2 § <=  p " =
        trim "  a.b +\t\x22x & y\x22=(3 ,4.5e2)^  \x7b g(2 § <=  p " :=
  ⟨by decide +kernel, expression_eq_trim (by decide +kernel)⟩

end BasicSketch.Cpp
