import BasicSketch.Toml.Quoted

set_option autoImplicit false

/-! Lexical elements of an options file. -/

namespace BasicSketch.Toml

theorem length_basic {cs text rest : List Char} (read : basic cs = some (text, rest)) :
    rest.length < cs.length := by
  fun_induction basic cs generalizing text rest with
  | case1 => simp at read
  | case2 => simp_all
  | case3 => simp at read
  | case4 c tail _ _ escaped tail' escape ih =>
    obtain ⟨_, inner, same⟩ := Option.map_eq_some_iff.1 read
    have shorter := ih inner
    have kept := length_escape? escape
    rw [← (Prod.mk.inj same).2, List.length_cons]
    omega
  | case5 c tail _ _ _ ih =>
    obtain ⟨_, inner, same⟩ := Option.map_eq_some_iff.1 read
    have shorter := ih inner
    rw [← (Prod.mk.inj same).2, List.length_cons]
    omega
  | case6 => simp at read

theorem length_literal {cs text rest : List Char} (read : literal cs = some (text, rest)) :
    rest.length < cs.length := by
  fun_induction literal cs generalizing text rest with
  | case1 => simp at read
  | case2 => simp_all
  | case3 c tail _ _ ih =>
    obtain ⟨_, inner, same⟩ := Option.map_eq_some_iff.1 read
    have shorter := ih inner
    rw [← (Prod.mk.inj same).2, List.length_cons]
    omega
  | case4 => simp at read

theorem length_multilineBasic {cs text rest : List Char}
    (read : multilineBasic cs = some (text, rest)) : rest.length < cs.length := by
  fun_induction multilineBasic cs generalizing text rest with
  | case1 => simp at read
  | case2 c tail _ kept _ =>
    rw [← (Prod.mk.inj (Option.some.inj read)).2, List.length_cons, List.length_drop]
    omega
  | case3 => simp at read
  | case4 c tail _ _ ih =>
    obtain ⟨_, inner, same⟩ := Option.map_eq_some_iff.1 read
    have shorter := ih inner
    rw [← (Prod.mk.inj same).2, List.length_cons]
    omega
  | case5 c tail _ _ tail' lineEnd ih =>
    have shorter := ih read
    have kept := length_afterLineEnd? lineEnd
    rw [List.length_cons]
    omega
  | case6 => simp at read
  | case7 c tail _ _ _ escaped tail' escape ih =>
    obtain ⟨_, inner, same⟩ := Option.map_eq_some_iff.1 read
    have shorter := ih inner
    have kept := length_escape? escape
    rw [← (Prod.mk.inj same).2, List.length_cons]
    omega
  | case8 c tail _ _ _ ih =>
    obtain ⟨_, inner, same⟩ := Option.map_eq_some_iff.1 read
    have shorter := ih inner
    rw [← (Prod.mk.inj same).2, List.length_cons]
    omega
  | case9 => simp at read

theorem length_multilineLiteral {cs text rest : List Char}
    (read : multilineLiteral cs = some (text, rest)) : rest.length < cs.length := by
  fun_induction multilineLiteral cs generalizing text rest with
  | case1 => simp at read
  | case2 c tail _ kept _ =>
    rw [← (Prod.mk.inj (Option.some.inj read)).2, List.length_cons, List.length_drop]
    omega
  | case3 => simp at read
  | case4 c tail _ _ ih =>
    obtain ⟨_, inner, same⟩ := Option.map_eq_some_iff.1 read
    have shorter := ih inner
    rw [← (Prod.mk.inj same).2, List.length_cons]
    omega
  | case5 c tail _ _ ih =>
    obtain ⟨_, inner, same⟩ := Option.map_eq_some_iff.1 read
    have shorter := ih inner
    rw [← (Prod.mk.inj same).2, List.length_cons]
    omega
  | case6 => simp at read

inductive Lexeme where
  | word (chars : List Char)
  | text (chars : List Char) (multiline : Bool)
  | equals
  | comma
  | openBracket
  | closeBracket
  | lineBreak
  deriving DecidableEq, Repr

namespace Lexeme

def isWordChar (c : Char) : Bool := c.isAlphanum || c == '_' || c == '-' || c == '+'

def quoted? : List Char → Option (Lexeme × List Char)
  | '\x22' :: '\x22' :: '\x22' :: rest =>
    (multilineBasic (dropFirstBreak rest)).map fun (chars, after) => (.text chars true, after)
  | '\x27' :: '\x27' :: '\x27' :: rest =>
    (multilineLiteral (dropFirstBreak rest)).map fun (chars, after) => (.text chars true, after)
  | '\x22' :: rest => (basic rest).map fun (chars, after) => (.text chars false, after)
  | '\x27' :: rest => (literal rest).map fun (chars, after) => (.text chars false, after)
  | _ => none

theorem length_dropFirstBreak_le (cs : List Char) : (dropFirstBreak cs).length ≤ cs.length := by
  unfold dropFirstBreak
  split <;> simp

theorem length_quoted? {cs rest : List Char} {lexeme : Lexeme}
    (read : quoted? cs = some (lexeme, rest)) : rest.length < cs.length := by
  unfold quoted? at read
  split at read
  case h_1 tail =>
    obtain ⟨_, inner, same⟩ := Option.map_eq_some_iff.1 read
    have shorter := length_multilineBasic inner
    have kept := length_dropFirstBreak_le tail
    simp only [← (Prod.mk.inj same).2, List.length_cons]
    omega
  case h_2 tail =>
    obtain ⟨_, inner, same⟩ := Option.map_eq_some_iff.1 read
    have shorter := length_multilineLiteral inner
    have kept := length_dropFirstBreak_le tail
    simp only [← (Prod.mk.inj same).2, List.length_cons]
    omega
  case h_3 =>
    obtain ⟨_, inner, same⟩ := Option.map_eq_some_iff.1 read
    have shorter := length_basic inner
    simp only [← (Prod.mk.inj same).2, List.length_cons]
    omega
  case h_4 =>
    obtain ⟨_, inner, same⟩ := Option.map_eq_some_iff.1 read
    have shorter := length_literal inner
    simp only [← (Prod.mk.inj same).2, List.length_cons]
    omega
  case h_5 => simp at read

def mark? : Char → Option Lexeme
  | '=' => some .equals
  | ',' => some .comma
  | '[' => some .openBracket
  | ']' => some .closeBracket
  | '\n' => some .lineBreak
  | _ => none

def scan : List Char → Option (List Lexeme)
  | [] => some []
  | c :: rest =>
    if isSpace c then scan rest
    else if c == '#' then scan (rest.dropWhile isTextChar)
    else if isWordChar c then
      (scan (rest.dropWhile isWordChar)).map (.word (c :: rest.takeWhile isWordChar) :: ·)
    else
      match mark? c with
      | some lexeme => (scan rest).map (lexeme :: ·)
      | none =>
        match _quoted : quoted? (c :: rest) with
        | some (lexeme, rest') => (scan rest').map (lexeme :: ·)
        | none => none
termination_by cs => cs.length
decreasing_by
  · simp
  · exact Nat.lt_succ_of_le (List.dropWhile_suffix isTextChar).length_le
  · exact Nat.lt_succ_of_le (List.dropWhile_suffix isWordChar).length_le
  · simp
  · exact length_quoted? _quoted

def plainBreaks : List Char → List Char
  | [] => []
  | '\r' :: '\n' :: rest => '\n' :: plainBreaks rest
  | c :: rest => c :: plainBreaks rest

def ofText? (text : String) : Option (List Lexeme) :=
  match plainBreaks text.toList with
  | '\uFEFF' :: rest => scan rest
  | cs => scan cs

end Lexeme

end BasicSketch.Toml
