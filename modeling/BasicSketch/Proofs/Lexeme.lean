import BasicSketch.Text.Decimal
import BasicSketch.Proofs.Lexing

set_option autoImplicit false

/-! What the characters of a token are, by its kind. -/

namespace BasicSketch

namespace Text

theorem isDigit_of_mem_nat (n : Nat) : ∀ c ∈ (toString n).toList, c.isDigit = true := by
  intro c mem
  rw [Nat.toString_eq_repr, Nat.toList_repr] at mem
  exact Nat.isDigit_of_mem_toDigits (by decide) (by decide) mem

theorem digitsValue_nat (n : Nat) : digitsValue (toString n).toList = n := by
  rw [Nat.toString_eq_repr, Nat.toList_repr, digitsValue]
  exact (Nat.ofDigitChars_eq_foldl).symm.trans Nat.ofDigitChars_ten_toDigits

theorem readDigits?_nat (n : Nat) : readDigits? (toString n).toList = some n := by
  unfold readDigits?
  rw [if_neg (by simpa using isDigit_of_mem_nat n), digitsValue_nat]

end Text

namespace Token

structure WordText (cs : List Char) : Prop where
  start : cs.head?.any (fun c => c.isAlpha || c == '_') = true
  chars : ∀ c ∈ cs, Text.isNameChar c = true ∨ c = '$'

def Lexeme (kind : TokenKind) (cs : List Char) : Prop :=
  match kind with
  | .symbol s => cs = s.text.toList
  | .integer => cs ≠ [] ∧ ∀ c ∈ cs, c.isDigit = true
  | .keyword _ | .identifier => WordText cs
  | _ => True

variable {cs rest : List Char} {kind : TokenKind} {start : Nat} {ts : List Token} {t : Token}
  {line : String}

theorem Lexeme.wordText (lexeme : Lexeme kind cs) (word : kind.isWord = true) :
    WordText cs := by
  unfold TokenKind.isWord at word
  split at word
  · exact lexeme
  · exact lexeme
  · simp at word

theorem lexeme_of_matches (matched : kind.pattern.Matches cs) : Lexeme kind cs := by
  cases kind with
  | symbol s => exact matches_symbol.1 matched
  | integer => exact Pattern.matches_atLeastOne.1 matched
  | keyword k =>
    obtain ⟨full, letters⟩ := keyword_chars matched
    have begins (c : Char) (mem : c ∈ cs) : (c.isAlpha || c == '_') = true := by
      rw [letters c mem, Bool.true_or]
    obtain ⟨c, more, rfl⟩ := List.exists_cons_of_ne_nil full
    exact ⟨begins c List.mem_cons_self, fun d mem => .inl (isNameChar_of_start (begins d mem))⟩
  | identifier =>
    obtain ⟨c, names, dollar, rfl, begins, inside, last⟩ := matches_identifier.1 matched
    refine ⟨begins, fun d mem => ?_⟩
    rcases List.mem_cons.1 mem with rfl | later
    · exact .inl (isNameChar_of_start begins)
    · rcases List.mem_append.1 later with name | sigil
      · exact .inl (inside d name)
      · rcases last with rfl | rfl
        · exact .inr (List.mem_singleton.1 sigil)
        · cases sigil
  | _ => trivial

theorem Reads.lexeme (reads : Reads kind cs rest) : Lexeme kind cs := by
  cases reads with
  | longest matched => exact lexeme_of_matches matched
  | unclosed unknown => exact unknown ▸ trivial

theorem Laid.gaps (laid : Laid start cs ts) :
    ∀ t ∈ ts, ∀ c ∈ t.gap.toList, isGap c = true ∧ c ∈ cs := by
  induction laid with
  | done => simp
  | token white _ _ ih =>
    refine List.forall_mem_cons.2 ⟨fun c mem => ?_, fun t mem c inside => ?_⟩
    · rw [String.toList_ofList] at mem
      exact ⟨white c mem, List.mem_append_left _ mem⟩
    · obtain ⟨gap, later⟩ := ih t mem c inside
      exact ⟨gap, List.mem_append_right _ (List.mem_append_right _ later)⟩

theorem lexeme_of_mem_ofLine (mem : t ∈ ofLine line) : Lexeme t.kind t.text.toList := by
  obtain ⟨_, _, _, _, reads⟩ := (laid_ofLine line).reads t mem
  exact reads.lexeme

theorem isGap_of_mem_ofLine (mem : t ∈ ofLine line) : ∀ c ∈ t.gap.toList, isGap c = true :=
  fun c inside => ((laid_ofLine line).gaps t mem c inside).1

theorem mem_of_mem_ofLine (mem : t ∈ ofLine line) : ∀ c ∈ t.text.toList, c ∈ line.toList := by
  intro c inside
  obtain ⟨before, rest, split, -⟩ := (laid_ofLine line).reads t mem
  rw [split]
  exact List.mem_append_right _ (List.mem_append_left _ inside)

end Token

end BasicSketch
