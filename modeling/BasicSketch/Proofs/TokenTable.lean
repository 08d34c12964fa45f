import BasicSketch.Token.Scan

set_option autoImplicit false

/-!
The table of the tokens: each kind has a pattern, and where two patterns match the same text one
kind goes before the other.
-/

namespace BasicSketch

open Text (isNameChar lower)

namespace Text

variable {c : Char}

theorem isAlpha_iff : c.isAlpha = true ↔
    65 ≤ c.toNat ∧ c.toNat ≤ 90 ∨ 97 ≤ c.toNat ∧ c.toNat ≤ 122 := by
  delta Char.isAlpha Char.isUpper Char.isLower
  simp [UInt32.le_iff_toNat_le]

theorem isDigit_iff : c.isDigit = true ↔ 48 ≤ c.toNat ∧ c.toNat ≤ 57 := by
  delta Char.isDigit
  simp [UInt32.le_iff_toNat_le]

theorem isNameChar_iff : isNameChar c = true ↔
    ((65 ≤ c.toNat ∧ c.toNat ≤ 90 ∨ 97 ≤ c.toNat ∧ c.toNat ≤ 122) ∨
      48 ≤ c.toNat ∧ c.toNat ≤ 57) ∨ c.toNat = 95 := by
  rw [isNameChar, Char.isAlphanum, Bool.or_eq_true, Bool.or_eq_true, isAlpha_iff, isDigit_iff,
    beq_iff_eq, ← Char.toNat_inj]
  rfl

end Text

inductive Pattern where
  | empty
  | one (holds : Char → Bool)
  | seq (first second : Pattern)
  | alt (left right : Pattern)
  | many (p : Pattern)

namespace Pattern

inductive Matches : Pattern → List Char → Prop
  | empty : Matches .empty []
  | one {holds : Char → Bool} {c : Char} (here : holds c = true) : Matches (.one holds) [c]
  | seq {p q : Pattern} {a b : List Char} (first : Matches p a) (second : Matches q b) :
    Matches (.seq p q) (a ++ b)
  | left {p q : Pattern} {a : List Char} (here : Matches p a) : Matches (.alt p q) a
  | right {p q : Pattern} {a : List Char} (here : Matches q a) : Matches (.alt p q) a
  | stop {p : Pattern} : Matches (.many p) []
  | more {p : Pattern} {a b : List Char} (first : Matches p a) (rest : Matches (.many p) b) :
    Matches (.many p) (a ++ b)

def atLeastOne (p : Pattern) : Pattern := .seq p (.many p)

def maybe (p : Pattern) : Pattern := .alt p .empty

/-- The characters of `cs`, each up to what `key` does not tell apart. -/
def spelled (key : Char → Char) : List Char → Pattern
  | [] => .empty
  | c :: cs => .seq (.one fun d => key d == key c) (spelled key cs)

variable {w : List Char} {holds : Char → Bool} {p q : Pattern}

theorem matches_empty : Matches .empty w ↔ w = [] := by
  constructor
  · intro matched
    cases matched
    rfl
  · rintro rfl
    exact .empty

theorem matches_one : Matches (.one holds) w ↔ ∃ c, w = [c] ∧ holds c = true := by
  constructor
  · intro matched
    cases matched with
    | one here => exact ⟨_, rfl, here⟩
  · rintro ⟨c, rfl, here⟩
    exact .one here

theorem matches_seq : Matches (.seq p q) w ↔ ∃ a b, w = a ++ b ∧ Matches p a ∧ Matches q b := by
  constructor
  · intro matched
    cases matched with
    | seq first second => exact ⟨_, _, rfl, first, second⟩
  · rintro ⟨a, b, rfl, first, second⟩
    exact .seq first second

theorem matches_alt : Matches (.alt p q) w ↔ Matches p w ∨ Matches q w := by
  constructor
  · intro matched
    cases matched with
    | left here => exact .inl here
    | right here => exact .inr here
  · rintro (here | here)
    · exact .left here
    · exact .right here

theorem matches_one_seq :
    Matches (.seq (.one holds) q) w ↔ ∃ c b, w = c :: b ∧ holds c = true ∧ Matches q b := by
  simp only [matches_seq, matches_one]
  constructor
  · rintro ⟨_, b, rfl, ⟨c, rfl, here⟩, rest⟩
    exact ⟨c, b, rfl, here, rest⟩
  · rintro ⟨c, b, rfl, here, rest⟩
    exact ⟨[c], b, rfl, ⟨c, rfl, here⟩, rest⟩

theorem matches_many_one : Matches (.many (.one holds)) w ↔ ∀ c ∈ w, holds c = true := by
  constructor
  · intro matched
    generalize eq : Pattern.many (.one holds) = p at matched
    induction matched with
    | stop => simp
    | more first rest _ ih =>
      cases eq
      obtain ⟨c, rfl, here⟩ := matches_one.1 first
      simpa [here] using ih rfl
    | _ => cases eq
  · intro inside
    induction w with
    | nil => exact .stop
    | cons c w ih =>
      rw [List.forall_mem_cons] at inside
      exact .more (.one inside.1) (ih inside.2)

theorem matches_atLeastOne :
    Matches (atLeastOne (.one holds)) w ↔ w ≠ [] ∧ ∀ c ∈ w, holds c = true := by
  rw [atLeastOne, matches_one_seq]
  constructor
  · rintro ⟨c, b, rfl, here, rest⟩
    exact ⟨by simp, by simpa [here] using matches_many_one.1 rest⟩
  · rintro ⟨full, inside⟩
    obtain ⟨c, b, rfl⟩ := List.exists_cons_of_ne_nil full
    rw [List.forall_mem_cons] at inside
    exact ⟨c, b, rfl, inside.1, matches_many_one.2 inside.2⟩

theorem matches_maybe : Matches (maybe p) w ↔ Matches p w ∨ w = [] := by
  rw [maybe, matches_alt, matches_empty]

theorem matches_spelled {key : Char → Char} {cs : List Char} :
    Matches (spelled key cs) w ↔ w.map key = cs.map key := by
  induction cs generalizing w with
  | nil => simp [spelled, matches_empty]
  | cons c cs ih =>
    rw [spelled, matches_one_seq]
    cases w with
    | nil => simp
    | cons d w =>
      simp only [List.cons.injEq, List.map_cons, beq_iff_eq, ih]
      constructor
      · rintro ⟨_, _, ⟨rfl, rfl⟩, same⟩
        exact same
      · intro same
        exact ⟨d, w, ⟨rfl, rfl⟩, same⟩

end Pattern

open Pattern (matches_one_seq matches_seq matches_many_one matches_one matches_maybe
  matches_atLeastOne)

namespace Keyword

theorem spellings_lower : ∀ entry ∈ spellings, entry.1 = lower entry.2.name ∧
    entry.1.toList ≠ [] ∧ entry.1.toList.all Char.isAlpha = true := by
  decide

theorem lookup_spelling : ∀ entry ∈ spellings, spellings.lookup entry.1 = some entry.2 := by
  decide

theorem mem_spellings (k : Keyword) : (lower k.name, k) ∈ spellings := by
  have listed : k ∈ spellings.map Prod.snd := by
    cases k <;> decide
  obtain ⟨⟨spelling, _⟩, mem, rfl⟩ := List.mem_map.1 listed
  exact (spellings_lower _ mem).1 ▸ mem

theorem ofWord?_eq_some_iff {word : String} {k : Keyword} :
    ofWord? word = some k ↔ lower word = lower k.name := by
  constructor
  · intro found
    obtain ⟨before, after, eq, -⟩ := List.lookup_eq_some_iff.1 found
    exact (spellings_lower (lower word, k) (by simp [eq])).1
  · intro same
    rw [ofWord?, same]
    exact lookup_spelling (lower k.name, k) (mem_spellings k)

end Keyword

namespace Symbol

def text : Symbol → String
  | .plus => "+"
  | .minus => "-"
  | .star => "*"
  | .slash => "/"
  | .backslash => "\\"
  | .caret => "^"
  | .equals => "="
  | .notEquals => "<>"
  | .lessThan => "<"
  | .greaterThan => ">"
  | .lessEquals => "<="
  | .greaterEquals => ">="
  | .ampersand => "&"
  | .arrow => "->"
  | .doubleColon => "::"
  | .leftParen => "("
  | .rightParen => ")"
  | .leftBrace => "\x7b"
  | .rightBrace => "\x7d"
  | .leftBracket => "["
  | .rightBracket => "]"
  | .comma => ","
  | .semicolon => ";"
  | .colon => ":"
  | .dot => "."
  | .hash => "#"

def all : List Symbol :=
  [plus, minus, star, slash, backslash, caret, equals, notEquals, lessThan, greaterThan,
    lessEquals, greaterEquals, ampersand, arrow, doubleColon, leftParen, rightParen, leftBrace,
    rightBrace, leftBracket, rightBracket, comma, semicolon, colon, dot, hash]

theorem find_text (s : Symbol) : all.find? (fun other => other.text == s.text) = some s := by
  cases s <;> decide

theorem eq_of_text {s other : Symbol} (same : other.text = s.text) : other = s := by
  have found := find_text other
  rw [same, find_text s] at found
  exact (Option.some.inj found).symm

end Symbol

namespace TokenKind

def exponent : Pattern :=
  .seq (.one fun c => c == 'E' || c == 'e')
    (.seq (.maybe (.one fun c => c == '+' || c == '-')) (.atLeastOne (.one Char.isDigit)))

def based (base : Char → Bool) (digit : Char → Bool) : Pattern :=
  .seq (.one (· == '&')) (.seq (.one base) (.atLeastOne (.one digit)))

def pattern : TokenKind → Pattern
  | .keyword k => .spelled Char.toLower k.name.toList
  | .symbol s => .spelled id s.text.toList
  | .integer => .atLeastOne (.one Char.isDigit)
  | .hex => based (fun c => c == 'H' || c == 'h') Token.isHexDigit
  | .octal => based (fun c => c == 'O' || c == 'o') Token.isOctalDigit
  | .binary => based (fun c => c == 'B' || c == 'b') Token.isBinaryDigit
  | .float =>
    .alt
      (.seq (.many (.one Char.isDigit))
        (.seq (.one (· == '.')) (.seq (.atLeastOne (.one Char.isDigit)) (.maybe exponent))))
      (.seq (.atLeastOne (.one Char.isDigit)) exponent)
  | .text => .seq (.one (· == '"')) (.seq (.many (.one (· != '"'))) (.one (· == '"')))
  | .identifier =>
    .seq (.one fun c => c.isAlpha || c == '_')
      (.seq (.many (.one Text.isNameChar)) (.maybe (.one (· == '$'))))
  | .unknown => .one fun c => !(Token.isGap c || Text.isNameChar c || c == '"')

/-- Of two kinds of the same text the one of higher rank is meant. -/
def rank : TokenKind → Nat
  | .unknown => 0
  | .identifier => 1
  | _ => 2

end TokenKind

namespace Token

/-- The table reads `text` as a token of this kind from `text ++ rest`: no longer beginning matches
a pattern, and no other kind goes before this one. -/
inductive Reads (kind : TokenKind) (text rest : List Char) : Prop
  | longest (matched : kind.pattern.Matches text)
    (longest : ∀ (other : TokenKind) longer, longer <+: text ++ rest →
      other.pattern.Matches longer →
      longer.length ≤ text.length)
    (preferred : ∀ other : TokenKind, other.pattern.Matches text →
      other = kind ∨ other.rank < kind.rank)
  | unclosed (unknown : kind = .unknown)
    (unmatched : ∀ (other : TokenKind) start, start <+: text → ¬ other.pattern.Matches start)
    (quote : ∃ tail, text = '"' :: tail ∧ '"' ∉ tail) (ends : rest = [])

def Starts (kind : TokenKind) (c : Char) : Prop :=
  match kind with
  | .keyword _ => c.isAlpha = true
  | .symbol s => s.text.toList.head? = some c
  | .integer => c.isDigit = true
  | .hex | .octal | .binary => c = '&'
  | .float => c.isDigit = true ∨ c = '.'
  | .text => c = '"'
  | .identifier => (c.isAlpha || c == '_') = true
  | .unknown => (isGap c || Text.isNameChar c || c == '"') = false

variable {w rest cs e : List Char} {s : Symbol} {c : Char} {kind : TokenKind} {p : Char → Bool}

variable {k : Keyword} {d : Char} {more : List Char} {length : Nat} {digit : Char → Bool}

theorem matches_keyword :
    (TokenKind.keyword k).pattern.Matches w ↔ Keyword.ofWord? (String.ofList w) = some k := by
  rw [TokenKind.pattern, Pattern.matches_spelled, Keyword.ofWord?_eq_some_iff,
    ← String.toList_inj, Text.toList_lower, Text.toList_lower, String.toList_ofList]

theorem matches_symbol : (TokenKind.symbol s).pattern.Matches w ↔ w = s.text.toList := by
  rw [TokenKind.pattern, Pattern.matches_spelled, List.map_id, List.map_id]

theorem isAlpha_of_lower (letter : c.toLower.isAlpha = true) : c.isAlpha = true := by
  unfold Char.toLower at letter
  split at letter
  · rename_i upper
    exact Text.isAlpha_iff.2 (.inl upper)
  · exact letter

theorem keyword_chars (matched : (TokenKind.keyword k).pattern.Matches w) :
    w ≠ [] ∧ ∀ c ∈ w, c.isAlpha = true := by
  have spelling := Pattern.matches_spelled.1 matched
  obtain ⟨-, full, letters⟩ := Keyword.spellings_lower _ (Keyword.mem_spellings k)
  rw [Text.toList_lower, ← spelling] at full letters
  refine ⟨by simpa using full, fun c mem => isAlpha_of_lower ?_⟩
  exact List.all_eq_true.1 letters _ (List.mem_map_of_mem mem)

def pairs : List (Char × Char) := [('<', '>'), ('<', '='), ('>', '='), ('-', '>'), (':', ':')]

theorem symbol_text (s : Symbol) : s.text.toList.length = 1 ∨
    ∃ pair ∈ pairs, s.text.toList = [pair.1, pair.2] := by
  cases s <;> decide

theorem length_symbol (s : Symbol) : s.text.toList.length = 1 ∨ s.text.toList.length = 2 := by
  rcases symbol_text s with one | ⟨pair, -, text⟩
  · exact .inl one
  · exact .inr (by rw [text, List.length_cons, List.length_singleton])

theorem starts_of_matches (matched : kind.pattern.Matches w) :
    ∃ c more, w = c :: more ∧ Starts kind c := by
  cases kind with
  | keyword k =>
    obtain ⟨full, letters⟩ := keyword_chars matched
    obtain ⟨c, more, rfl⟩ := List.exists_cons_of_ne_nil full
    exact ⟨c, more, rfl, letters c List.mem_cons_self⟩
  | symbol s =>
    obtain rfl := matches_symbol.1 matched
    have full : s.text.toList ≠ [] := by
      rw [← List.length_pos_iff]
      rcases length_symbol s with one | two <;> omega
    obtain ⟨c, more, eq⟩ := List.exists_cons_of_ne_nil full
    exact ⟨c, more, eq, by rw [Starts, eq, List.head?_cons]⟩
  | integer =>
    obtain ⟨c, more, rfl, digit, -⟩ := matches_one_seq.1 matched
    exact ⟨c, more, rfl, digit⟩
  | hex | octal | binary =>
    obtain ⟨c, more, rfl, here, -⟩ := matches_one_seq.1 matched
    exact ⟨c, more, rfl, beq_iff_eq.1 here⟩
  | float =>
    rcases Pattern.matches_alt.1 matched with decimal | whole
    · obtain ⟨a, b, rfl, digits, point⟩ := matches_seq.1 decimal
      obtain ⟨dot, rest, rfl, here, -⟩ := matches_one_seq.1 point
      cases a with
      | nil => exact ⟨dot, rest, rfl, .inr (by simpa using here)⟩
      | cons c a => exact ⟨c, _, rfl, .inl (matches_many_one.1 digits c List.mem_cons_self)⟩
    · obtain ⟨a, b, rfl, digits, -⟩ := matches_seq.1 whole
      obtain ⟨c, more, rfl, digit, -⟩ := matches_one_seq.1 digits
      exact ⟨c, _, rfl, .inl digit⟩
  | text =>
    obtain ⟨c, more, rfl, here, -⟩ := matches_one_seq.1 matched
    exact ⟨c, more, rfl, beq_iff_eq.1 here⟩
  | identifier =>
    obtain ⟨c, more, rfl, here, -⟩ := matches_one_seq.1 matched
    exact ⟨c, more, rfl, here⟩
  | unknown =>
    obtain ⟨c, rfl, here⟩ := matches_one.1 matched
    exact ⟨c, [], rfl, by rwa [Bool.not_eq_true'] at here⟩

theorem starts_of_begins (matched : kind.pattern.Matches w) (start : w <+: c :: rest) :
    Starts kind c := by
  obtain ⟨d, more, rfl, starts⟩ := starts_of_matches matched
  obtain ⟨tail, eq⟩ := start
  obtain rfl : d = c := (List.cons.inj eq).1
  exact starts

theorem symbol_start (starts : Starts (.symbol s) c) :
    isNameChar c = false ∧ c ≠ '"' ∧ isGap c = false := by
  cases s <;> (obtain rfl := Option.some.inj starts; decide)

theorem isNameChar_of_start (start : (c.isAlpha || c == '_') = true) :
    isNameChar c = true := by
  rcases Bool.or_eq_true_iff.1 start with letter | underscore
  · rw [isNameChar, Char.isAlphanum, letter, Bool.true_or, Bool.true_or]
  · rw [isNameChar, underscore, Bool.or_true]

theorem isNameChar_of_isDigit (digit : c.isDigit = true) : isNameChar c = true := by
  rw [isNameChar, Char.isAlphanum, digit, Bool.or_true, Bool.true_or]

theorem not_isDigit_of_start (start : (c.isAlpha || c == '_') = true) : c.isDigit = false := by
  rcases Bool.or_eq_true_iff.1 start with letter | underscore
  · rw [Text.isAlpha_iff] at letter
    rw [Bool.eq_false_iff, ne_eq, Text.isDigit_iff]
    omega
  · obtain rfl := beq_iff_eq.1 underscore
    decide

theorem word_of_starts (start : (c.isAlpha || c == '_') = true) (starts : Starts kind c) :
    (∃ k, kind = .keyword k) ∨ kind = .identifier := by
  have name := isNameChar_of_start start
  have noDigit := not_isDigit_of_start start
  cases kind with
  | keyword k => exact .inl ⟨k, rfl⟩
  | identifier => exact .inr rfl
  | symbol s =>
    have other := (symbol_start starts).1
    simp [name] at other
  | integer => simp [Starts, noDigit] at starts
  | hex | octal | binary | text =>
    obtain rfl : c = _ := starts
    simp at start
  | float =>
    rcases starts with digit | rfl
    · simp [noDigit] at digit
    · simp at start
  | unknown => simp [Starts, name] at starts

theorem number_of_starts (digit : c.isDigit = true) (starts : Starts kind c) :
    kind = .integer ∨ kind = .float := by
  have name := isNameChar_of_isDigit digit
  cases kind with
  | integer => exact .inl rfl
  | float => exact .inr rfl
  | keyword k =>
    have other := not_isDigit_of_start (Bool.or_eq_true_iff.2 (.inl starts))
    simp [digit] at other
  | identifier =>
    have other := not_isDigit_of_start starts
    simp [digit] at other
  | symbol s =>
    have other := (symbol_start starts).1
    simp [name] at other
  | hex | octal | binary | text =>
    obtain rfl : c = _ := starts
    simp at digit
  | unknown => simp [Starts, name] at starts

theorem dot_of_starts (starts : Starts kind '.') :
    kind = .symbol .dot ∨ kind = .float ∨ kind = .unknown := by
  cases kind with
  | symbol s => cases s <;> first | exact .inl rfl | simp [Starts, Symbol.text] at starts
  | float => exact .inr (.inl rfl)
  | unknown => exact .inr (.inr rfl)
  | _ => simp [Starts] at starts

theorem ampersand_of_starts (starts : Starts kind '&') :
    kind = .symbol .ampersand ∨ kind = .hex ∨ kind = .octal ∨ kind = .binary ∨ kind = .unknown := by
  cases kind with
  | symbol s => cases s <;> first | exact .inl rfl | simp [Starts, Symbol.text] at starts
  | hex => exact .inr (.inl rfl)
  | octal => exact .inr (.inr (.inl rfl))
  | binary => exact .inr (.inr (.inr (.inl rfl)))
  | unknown => exact .inr (.inr (.inr (.inr rfl)))
  | _ => simp [Starts] at starts

theorem quote_of_starts (starts : Starts kind '"') : kind = .text := by
  cases kind with
  | text => rfl
  | symbol s => exact absurd rfl (symbol_start starts).2.1
  | _ => simp [Starts] at starts

theorem take_run (p : Char → Bool) (cs : List Char) : cs.take (run p cs) = cs.takeWhile p :=
  (List.prefix_iff_eq_take.1 (List.takeWhile_prefix p)).symm

theorem run_pos (rest : List Char) (holds : p c = true) : 0 < run p (c :: rest) := by
  simp [run, holds]

theorem drop_run (p : Char → Bool) (cs : List Char) : cs.drop (run p cs) = cs.dropWhile p := by
  have here : cs.takeWhile p ++ cs.drop (run p cs) = cs := by
    rw [← take_run, List.take_append_drop]
  exact List.append_cancel_left (here.trans List.takeWhile_append_dropWhile.symm)

theorem length_le_run (start : w <+: cs) (inside : ∀ c ∈ w, p c = true) : w.length ≤ run p cs := by
  obtain ⟨tail, rfl⟩ := start
  rw [run, List.takeWhile_append_of_pos inside, List.length_append]
  omega

theorem run_of_stop {a : List Char} (start : a ++ d :: more <+: cs) (inside : ∀ c ∈ a, p c = true)
    (stop : p d = false) : a.length = run p cs ∧ d :: more <+: cs.drop (run p cs) := by
  obtain ⟨tail, rfl⟩ := start
  have same : run p (a ++ d :: more ++ tail) = a.length := by
    rw [run, List.append_assoc, List.takeWhile_append_of_pos inside]
    simp [stop]
  refine ⟨same.symm, ?_⟩
  rw [same, List.append_assoc, List.drop_left]
  exact List.prefix_append ..

theorem split_run (p : Char → Bool) (cs : List Char) :
    ∃ a rest, cs = a ++ rest ∧ a.length = run p cs ∧ (∀ c ∈ a, p c = true) ∧
      rest = cs.drop (run p cs) :=
  ⟨cs.takeWhile p, cs.dropWhile p, List.takeWhile_append_dropWhile.symm, rfl,
    fun c mem => List.all_eq_true.1 List.all_takeWhile c mem, (drop_run p cs).symm⟩

theorem stop_of_run (next : cs.drop (run p cs) = d :: more) : p d = false := by
  have stop := List.head?_dropWhile_not p cs
  rw [← drop_run, next] at stop
  exact stop

def Finds (cs : List Char) (found : TokenKind × Nat) : Prop :=
  ∃ text rest, cs = text ++ rest ∧ found.2 = text.length ∧ Reads found.1 text rest

theorem Finds.of_best (text rest : List Char) (split : cs = text ++ rest)
    (same : length = text.length) (matched : kind.pattern.Matches text)
    (best : ∀ (other : TokenKind) w, w <+: cs → other.pattern.Matches w →
      w.length < length ∨ (w.length = length ∧ (other = kind ∨ other.rank < kind.rank))) :
    Finds cs (kind, length) := by
  subst split same
  refine ⟨text, rest, rfl, rfl, .longest matched ?_ ?_⟩
  · intro other longer start matched
    rcases best other longer start matched with shorter | ⟨same, -⟩
    · exact Nat.le_of_lt shorter
    · exact Nat.le_of_eq same
  · intro other matched
    rcases best other text (List.prefix_append ..) matched with shorter | ⟨-, preferred⟩
    · exact absurd shorter (Nat.lt_irrefl _)
    · exact preferred

theorem best_of_le (short : w.length ≤ length) :
    w.length < length ∨ (w.length = length ∧ (kind = kind ∨ kind.rank < kind.rank)) :=
  (Nat.lt_or_eq_of_le short).imp_right fun same => ⟨same, .inl rfl⟩

theorem matches_identifier :
    TokenKind.identifier.pattern.Matches w ↔ ∃ c b e, w = c :: (b ++ e) ∧
      (c.isAlpha || c == '_') = true ∧ (∀ d ∈ b, isNameChar d = true) ∧
      (e = ['$'] ∨ e = []) := by
  rw [TokenKind.pattern, matches_one_seq]
  simp only [matches_seq, matches_many_one, matches_maybe,
    matches_one, beq_iff_eq]
  constructor
  · rintro ⟨c, _, rfl, start, b, e, rfl, inside, ⟨_, rfl, rfl⟩ | rfl⟩
    · exact ⟨c, b, _, rfl, start, inside, .inl rfl⟩
    · exact ⟨c, b, _, rfl, start, inside, .inr rfl⟩
  · rintro ⟨c, b, e, rfl, start, inside, rfl | rfl⟩
    · exact ⟨c, _, rfl, start, b, _, rfl, inside, .inl ⟨_, rfl, rfl⟩⟩
    · exact ⟨c, _, rfl, start, b, _, rfl, inside, .inr rfl⟩

theorem finds_scanWord (rest : List Char) (start : (c.isAlpha || c == '_') = true) :
    Finds (c :: rest) (scanWord (c :: rest)) := by
  have name := isNameChar_of_start start
  have split := List.takeWhile_append_dropWhile (p := isNameChar) (l := c :: rest)
  have inside : ∀ d ∈ rest.takeWhile isNameChar, isNameChar d = true :=
    fun d mem => List.all_eq_true.1 List.all_takeWhile d mem
  have first : (c :: rest).takeWhile isNameChar = c :: rest.takeWhile isNameChar := by
    simp [name]
  -- a keyword has letters only, and an identifier ends before or with a dollar sign
  have kinds (other : TokenKind) (w : List Char) (begins : w <+: c :: rest)
      (matched : other.pattern.Matches w) :
      ((∃ k, other = .keyword k) ∨ other = .identifier) ∧
        w.length ≤ run isNameChar (c :: rest) ∨
      other = .identifier ∧ w.length = run isNameChar (c :: rest) + 1 ∧
        ∃ after, (c :: rest).drop (run isNameChar (c :: rest)) = '$' :: after := by
    rcases word_of_starts start (starts_of_begins matched begins) with ⟨k, rfl⟩ | rfl
    · refine .inl ⟨.inl ⟨k, rfl⟩, length_le_run begins fun d mem => ?_⟩
      exact isNameChar_of_start (Bool.or_eq_true_iff.2 (.inl ((keyword_chars matched).2 d mem)))
    · obtain ⟨d, b, e, rfl, begin, names, suffix⟩ := matches_identifier.1 matched
      have chars : ∀ x ∈ d :: b, isNameChar x = true :=
        List.forall_mem_cons.2 ⟨isNameChar_of_start begin, names⟩
      rcases suffix with rfl | rfl
      · obtain ⟨same, after, eq⟩ := run_of_stop (a := d :: b) (d := '$') begins chars rfl
        exact .inr ⟨rfl, by simp [← same], after, eq.symm⟩
      · refine .inl ⟨.inr rfl, length_le_run begins ?_⟩
        simpa using chars
  simp only [scanWord]
  split
  · rename_i after next
    rw [drop_run] at next
    rw [next, first] at split
    refine .of_best (c :: (rest.takeWhile isNameChar ++ ['$'])) after
      (by simpa using split.symm) (by simp [run, first]) ?_ ?_
    · exact matches_identifier.2 ⟨c, _, _, rfl, start, inside, .inl rfl⟩
    · intro other w begins matched
      rcases kinds other w begins matched with ⟨-, short⟩ | ⟨rfl, same, -⟩
      · exact .inl (Nat.lt_succ_of_le short)
      · exact .inr ⟨same, .inl rfl⟩
  · rename_i plain
    have shorter (other : TokenKind) (w : List Char) (begins : w <+: c :: rest)
        (matched : other.pattern.Matches w) :
        ((∃ k, other = .keyword k) ∨ other = .identifier) ∧
          w.length ≤ run isNameChar (c :: rest) := by
      rcases kinds other w begins matched with short | ⟨-, -, after, next⟩
      · exact short
      · exact absurd next (plain after)
    have whole (w : List Char) (begins : w <+: c :: rest)
        (same : w.length = run isNameChar (c :: rest)) :
        w = (c :: rest).take (run isNameChar (c :: rest)) := by
      rw [← same]
      exact List.prefix_iff_eq_take.1 begins
    cases found : Keyword.ofWord? (String.ofList ((c :: rest).take
        (run isNameChar (c :: rest)))) with
    | some k =>
      refine .of_best _ _ split.symm rfl ?_ ?_
      · rw [matches_keyword, ← take_run, found]
      · intro other w begins matched
        obtain ⟨kind, short⟩ := shorter other w begins matched
        rcases Nat.lt_or_eq_of_le short with less | same
        · exact .inl less
        · refine .inr ⟨same, ?_⟩
          rcases kind with ⟨k', rfl⟩ | rfl
          · rw [whole w begins same, matches_keyword, found] at matched
            exact .inl (by rw [Option.some.inj matched])
          · exact .inr Nat.one_lt_two
    | none =>
      refine .of_best _ _ split.symm rfl ?_ ?_
      · rw [first]
        exact matches_identifier.2 ⟨c, _, [], by simp, start, inside, .inr rfl⟩
      · intro other w begins matched
        obtain ⟨kind, short⟩ := shorter other w begins matched
        rcases Nat.lt_or_eq_of_le short with less | same
        · exact .inl less
        · rcases kind with ⟨k', rfl⟩ | rfl
          · rw [whole w begins same, matches_keyword, found] at matched
            cases matched
          · exact .inr ⟨same, .inl rfl⟩

theorem matches_exponent :
    TokenKind.exponent.Matches e ↔ ∃ m s d, e = m :: (s ++ d) ∧ (m = 'E' ∨ m = 'e') ∧
      (s = ['+'] ∨ s = ['-'] ∨ s = []) ∧ d ≠ [] ∧ ∀ c ∈ d, c.isDigit = true := by
  rw [TokenKind.exponent, matches_one_seq]
  simp only [matches_seq, matches_maybe, matches_one,
    matches_atLeastOne, Bool.or_eq_true, beq_iff_eq]
  constructor
  · rintro ⟨m, _, rfl, mark, s, d, rfl, ⟨_, rfl, rfl | rfl⟩ | rfl, digits⟩
    · exact ⟨m, _, d, rfl, mark, .inl rfl, digits⟩
    · exact ⟨m, _, d, rfl, mark, .inr (.inl rfl), digits⟩
    · exact ⟨m, _, d, rfl, mark, .inr (.inr rfl), digits⟩
  · rintro ⟨m, s, d, rfl, mark, rfl | rfl | rfl, digits⟩
    · exact ⟨m, _, rfl, mark, _, d, rfl, .inl ⟨_, rfl, .inl rfl⟩, digits⟩
    · exact ⟨m, _, rfl, mark, _, d, rfl, .inl ⟨_, rfl, .inr rfl⟩, digits⟩
    · exact ⟨m, _, rfl, mark, _, d, rfl, .inr rfl, digits⟩

theorem exponent_read (cs : List Char) :
    ∃ e rest, cs = e ++ rest ∧ e.length = exponentLength cs ∧
      (TokenKind.exponent.Matches e ∨ e = []) := by
  have nothing : ∃ e rest, cs = e ++ rest ∧ e.length = 0 ∧
      (TokenKind.exponent.Matches e ∨ e = []) := ⟨[], cs, rfl, rfl, .inr rfl⟩
  fun_cases exponentLength cs with
  | case1 => exact nothing
  | case2 m s rest mark sign digits filled =>
    obtain ⟨d, after, rfl, length, inside, -⟩ := split_run Char.isDigit rest
    have full : d ≠ [] := by
      rintro rfl
      exact filled length.symm
    refine ⟨m :: ([s] ++ d), after, rfl, by simp [digits, length], .inl (matches_exponent.2 ?_)⟩
    simp only [Bool.or_eq_true, beq_iff_eq] at mark sign
    refine ⟨m, [s], d, rfl, mark.symm, ?_, full, inside⟩
    rcases sign with rfl | rfl <;> simp
  | case3 => exact nothing
  | case4 m s rest mark plain digits filled =>
    obtain ⟨d, after, eq, length, inside, -⟩ := split_run Char.isDigit (s :: rest)
    have full : d ≠ [] := by
      rintro rfl
      exact filled length.symm
    refine ⟨m :: d, after, by rw [eq, List.cons_append], by simp [digits, length], .inl ?_⟩
    simp only [Bool.or_eq_true, beq_iff_eq] at mark
    exact matches_exponent.2 ⟨m, [], d, rfl, mark.symm, .inr (.inr rfl), full, inside⟩
  | case5 => exact nothing
  | case6 => exact nothing

theorem length_le_exponentLength (start : e <+: cs) (matched : TokenKind.exponent.Matches e) :
    e.length ≤ exponentLength cs := by
  obtain ⟨m, s, d, rfl, mark, sign, full, digits⟩ := matches_exponent.1 matched
  obtain ⟨tail, rfl⟩ := start
  have marked : (m == 'e' || m == 'E') = true := by
    rcases mark with rfl | rfl <;> rfl
  have long : d.length ≤ run Char.isDigit (d ++ tail) :=
    length_le_run (List.prefix_append ..) digits
  have filled : 0 < d.length := List.length_pos_iff.2 full
  have signed (c : Char) (is : (c == '+' || c == '-') = true) :
      exponentLength (m :: c :: (d ++ tail)) = run Char.isDigit (d ++ tail) + 2 := by
    simp only [exponentLength, marked, is, if_true]
    rw [if_neg (by omega)]
  rcases sign with rfl | rfl | rfl
  · have eq := signed '+' rfl
    simp only [List.cons_append, List.nil_append, List.length_cons] at eq ⊢
    omega
  · have eq := signed '-' rfl
    simp only [List.cons_append, List.nil_append, List.length_cons] at eq ⊢
    omega
  · obtain ⟨c, d, rfl⟩ := List.exists_cons_of_ne_nil full
    have digit := digits c List.mem_cons_self
    have plain : (c == '+' || c == '-') = false := by
      refine Bool.eq_false_iff.2 fun sign => ?_
      simp only [Bool.or_eq_true, beq_iff_eq] at sign
      rcases sign with rfl | rfl <;> simp at digit
    simp only [List.nil_append, List.cons_append, List.length_cons] at long ⊢
    simp only [exponentLength, marked, plain, if_true, Bool.false_eq_true, if_false]
    rw [if_neg (by omega)]
    omega

theorem exponent_start (matched : TokenKind.exponent.Matches e) :
    ∃ m tail, e = m :: tail ∧ m.isDigit = false ∧ m ≠ '.' := by
  obtain ⟨m, s, d, rfl, mark, -⟩ := matches_exponent.1 matched
  refine ⟨m, s ++ d, rfl, ?_⟩
  rcases mark with rfl | rfl <;> decide

theorem matches_float :
    TokenKind.float.pattern.Matches w ↔
      (∃ a b e, w = a ++ '.' :: (b ++ e) ∧ (∀ c ∈ a, c.isDigit = true) ∧
        (b ≠ [] ∧ ∀ c ∈ b, c.isDigit = true) ∧ (TokenKind.exponent.Matches e ∨ e = [])) ∨
      ∃ a e, w = a ++ e ∧ (a ≠ [] ∧ ∀ c ∈ a, c.isDigit = true) ∧ TokenKind.exponent.Matches e := by
  rw [TokenKind.pattern, Pattern.matches_alt, matches_seq, matches_seq]
  simp only [matches_one_seq, matches_atLeastOne]
  refine or_congr ?_ Iff.rfl
  constructor
  · rintro ⟨a, _, rfl, digits, dot, _, rfl, here, tail⟩
    obtain ⟨b, e, rfl, fraction, exponent⟩ := matches_seq.1 tail
    obtain rfl := beq_iff_eq.1 here
    exact ⟨a, b, e, rfl, matches_many_one.1 digits,
      matches_atLeastOne.1 fraction, matches_maybe.1 exponent⟩
  · rintro ⟨a, b, e, rfl, digits, fraction, exponent⟩
    exact ⟨a, _, rfl, matches_many_one.2 digits, '.', _, rfl, rfl,
      .seq (matches_atLeastOne.2 fraction) (matches_maybe.2 exponent)⟩

theorem fraction_read (filled : run Char.isDigit rest ≠ 0) :
    ∃ b e tail, rest = b ++ e ++ tail ∧
      (b ++ e).length =
        run Char.isDigit rest + exponentLength (rest.drop (run Char.isDigit rest)) ∧
      (b ≠ [] ∧ ∀ c ∈ b, c.isDigit = true) ∧ (TokenKind.exponent.Matches e ∨ e = []) := by
  obtain ⟨b, after, split, length, digits, eq⟩ := split_run Char.isDigit rest
  obtain ⟨e, tail, rfl, exponent, matched⟩ := exponent_read after
  refine ⟨b, e, tail, by rw [split, List.append_assoc], ?_, ⟨?_, digits⟩, matched⟩
  · rw [List.length_append, length, exponent, eq]
  · rintro rfl
    exact filled length.symm

theorem fraction_le {b : List Char} (start : b ++ e <+: rest)
    (digits : b ≠ [] ∧ ∀ c ∈ b, c.isDigit = true)
    (exponent : TokenKind.exponent.Matches e ∨ e = []) :
    run Char.isDigit rest ≠ 0 ∧ (b ++ e).length ≤
      run Char.isDigit rest + exponentLength (rest.drop (run Char.isDigit rest)) := by
  have long := length_le_run ((List.prefix_append b e).trans start) digits.2
  have filled := List.length_pos_iff.2 digits.1
  refine ⟨by omega, ?_⟩
  rcases exponent with matched | rfl
  · obtain ⟨m, tail, rfl, stop, -⟩ := exponent_start matched
    obtain ⟨same, after⟩ := run_of_stop start digits.2 stop
    have shorter := length_le_exponentLength after matched
    rw [List.length_append]
    omega
  · rw [List.append_nil]
    omega

theorem finds_scanNumber (rest : List Char) (digit : c.isDigit = true) :
    Finds (c :: rest) (scanNumber (c :: rest)) := by
  obtain ⟨a, after, split, length, digits, eq⟩ := split_run Char.isDigit (c :: rest)
  have full : a ≠ [] := by
    rintro rfl
    exact absurd (run_pos rest digit) (by simp [← length])
  have whole (w : List Char) (begins : w <+: c :: rest)
      (matched : TokenKind.integer.pattern.Matches w) : w.length ≤ a.length := by
    rw [length]
    exact length_le_run begins (matches_atLeastOne.1 matched).2
  -- a float goes on after the digits with a dot or with an exponent
  have float (w : List Char) (begins : w <+: c :: rest)
      (matched : TokenKind.float.pattern.Matches w) :
      (∃ b e, w.length = a.length + 1 + (b ++ e).length ∧ '.' :: (b ++ e) <+: after ∧
        (b ≠ [] ∧ ∀ c ∈ b, c.isDigit = true) ∧ (TokenKind.exponent.Matches e ∨ e = [])) ∨
      ∃ e, w.length = a.length + e.length ∧ e <+: after ∧ TokenKind.exponent.Matches e := by
    rw [eq, length]
    rcases matches_float.1 matched with ⟨x, b, e, rfl, inside, fraction, exponent⟩ |
      ⟨x, e, rfl, ⟨-, inside⟩, exponent⟩
    · obtain ⟨same, tail⟩ := run_of_stop begins inside rfl
      exact .inl ⟨b, e, by simp [← same]; omega, tail, fraction, exponent⟩
    · obtain ⟨m, tail, rfl, stop, -⟩ := exponent_start exponent
      obtain ⟨same, follows⟩ := run_of_stop begins inside stop
      exact .inr ⟨m :: tail, by simp [← same], follows, exponent⟩
  have kinds (other : TokenKind) (w : List Char) (begins : w <+: c :: rest)
      (matched : other.pattern.Matches w) : other = .integer ∨ other = .float :=
    number_of_starts digit (starts_of_begins matched begins)
  have integer : TokenKind.integer.pattern.Matches a :=
    matches_atLeastOne.2 ⟨full, digits⟩
  simp only [scanNumber, ← length]
  rw [← length] at eq
  rw [← eq]
  split
  · rename_i tail
    have fractional (w : List Char) (begins : w <+: c :: rest)
        (matched : TokenKind.float.pattern.Matches w) : run Char.isDigit tail ≠ 0 ∧
          w.length ≤ a.length + 1 + run Char.isDigit tail +
            exponentLength (tail.drop (run Char.isDigit tail)) := by
      rcases float w begins matched with ⟨b, e, long, start, fraction, exponent⟩ |
        ⟨e, -, start, exponent⟩
      · have bounds := fraction_le (List.prefix_cons_inj '.' |>.1 start) fraction exponent
        exact ⟨bounds.1, by omega⟩
      · obtain ⟨m, more, rfl, -, dot⟩ := exponent_start exponent
        exact absurd (List.cons_prefix_cons.1 start).1 dot
    split
    · rename_i absent
      refine .of_best _ _ split rfl integer fun other w begins matched => ?_
      rcases kinds other w begins matched with rfl | rfl
      · have short := whole w begins matched
        exact best_of_le short
      · exact absurd absent (fractional w begins matched).1
    · rename_i filled
      obtain ⟨b, e, tail', rfl, long, fraction, exponent⟩ := fraction_read filled
      refine .of_best (a ++ '.' :: (b ++ e)) tail' (by simp [split])
        (by rw [List.length_append, List.length_cons, long]; omega)
        (matches_float.2 (.inl ⟨a, b, e, rfl, digits, fraction, exponent⟩)) ?_
      intro other w begins matched
      rcases kinds other w begins matched with rfl | rfl
      · have short := whole w begins matched
        exact .inl (by omega)
      · have short := (fractional w begins matched).2
        exact best_of_le short
  · rename_i noDot
    have exponential (w : List Char) (begins : w <+: c :: rest)
        (matched : TokenKind.float.pattern.Matches w) : exponentLength after ≠ 0 ∧
          w.length ≤ a.length + exponentLength after := by
      rcases float w begins matched with ⟨b, e, -, ⟨more, start⟩, -⟩ | ⟨e, long, start, exponent⟩
      · exact absurd start.symm (noDot _)
      · have short := length_le_exponentLength start exponent
        obtain ⟨m, tail, rfl, -⟩ := exponent_start exponent
        rw [List.length_cons] at short long
        exact ⟨by omega, by omega⟩
    simp only [scanWhole]
    split
    · rename_i absent
      refine .of_best _ _ split rfl integer fun other w begins matched => ?_
      rcases kinds other w begins matched with rfl | rfl
      · have short := whole w begins matched
        exact best_of_le short
      · exact absurd absent (exponential w begins matched).1
    · rename_i filled
      obtain ⟨e, tail, read, long, exponent⟩ := exponent_read after
      have matched : TokenKind.exponent.Matches e := by
        rcases exponent with matched | rfl
        · exact matched
        · exact absurd long.symm filled
      refine .of_best (a ++ e) tail (by rw [split, read, List.append_assoc])
        (by rw [List.length_append, long])
        (matches_float.2 (.inr ⟨a, e, rfl, ⟨full, digits⟩, matched⟩)) ?_
      intro other w begins matched
      rcases kinds other w begins matched with rfl | rfl
      · have short := whole w begins matched
        exact .inl (by omega)
      · have short := (exponential w begins matched).2
        exact best_of_le short

theorem length_of_matches_unknown (matched : TokenKind.unknown.pattern.Matches w) :
    w.length = 1 := by
  obtain ⟨c, rfl, -⟩ := matches_one.1 matched
  rfl

theorem finds_scanDot (rest : List Char) : Finds ('.' :: rest) (scanDot rest) := by
  have fractional (w : List Char) (begins : w <+: '.' :: rest)
      (matched : TokenKind.float.pattern.Matches w) : run Char.isDigit rest ≠ 0 ∧
        w.length ≤ 1 + run Char.isDigit rest +
          exponentLength (rest.drop (run Char.isDigit rest)) := by
    rcases matches_float.1 matched with ⟨a, b, e, rfl, digits, fraction, exponent⟩ |
      ⟨a, e, rfl, ⟨full, digits⟩, -⟩
    · cases a with
      | nil =>
        have bounds := fraction_le (List.cons_prefix_cons.1 begins).2 fraction exponent
        exact ⟨bounds.1, by rw [List.nil_append, List.length_cons]; omega⟩
      | cons d a =>
        have digit := digits d List.mem_cons_self
        rw [(List.cons_prefix_cons.1 begins).1] at digit
        simp at digit
    · obtain ⟨d, a, rfl⟩ := List.exists_cons_of_ne_nil full
      have digit := digits d List.mem_cons_self
      rw [(List.cons_prefix_cons.1 begins).1] at digit
      simp at digit
  simp only [scanDot]
  split
  · rename_i absent
    refine .of_best ['.'] rest rfl rfl (matches_symbol.2 rfl) ?_
    intro other w begins matched
    rcases dot_of_starts (starts_of_begins matched begins) with rfl | rfl | rfl
    · obtain rfl := matches_symbol.1 matched
      exact .inr ⟨rfl, .inl rfl⟩
    · exact absurd absent (fractional w begins matched).1
    · exact .inr ⟨length_of_matches_unknown matched, .inr Nat.two_pos⟩
  · rename_i filled
    obtain ⟨b, e, tail, rfl, long, fraction, exponent⟩ := fraction_read filled
    refine .of_best ('.' :: (b ++ e)) tail rfl
      (by rw [List.length_cons, long]; omega)
      (matches_float.2 (.inl ⟨[], b, e, rfl, by simp, fraction, exponent⟩)) ?_
    intro other w begins matched
    rcases dot_of_starts (starts_of_begins matched begins) with rfl | rfl | rfl
    · obtain rfl := matches_symbol.1 matched
      exact .inl (by change 1 < _; omega)
    · exact best_of_le (fractional w begins matched).2
    · exact .inl (by rw [length_of_matches_unknown matched]; omega)

theorem matches_based {base : Char → Bool} :
    (TokenKind.based base digit).Matches w ↔
      ∃ b d, w = '&' :: b :: d ∧ base b = true ∧ d ≠ [] ∧ ∀ c ∈ d, digit c = true := by
  rw [TokenKind.based, matches_one_seq]
  constructor
  · rintro ⟨ampersand, _, rfl, here, rest⟩
    obtain ⟨b, d, rfl, is, digits⟩ := matches_one_seq.1 rest
    obtain rfl := beq_iff_eq.1 here
    exact ⟨b, d, rfl, is, matches_atLeastOne.1 digits⟩
  · rintro ⟨b, d, rfl, is, digits⟩
    exact ⟨'&', _, rfl, rfl, matches_one_seq.2
      ⟨b, d, rfl, is, matches_atLeastOne.2 digits⟩⟩

def base? (letter : Char) : Option (TokenKind × (Char → Bool)) :=
  if letter == 'h' || letter == 'H' then some (.hex, isHexDigit)
  else if letter == 'o' || letter == 'O' then some (.octal, isOctalDigit)
  else if letter == 'b' || letter == 'B' then some (.binary, isBinaryDigit)
  else none

theorem scanAmpersand_cons (letter : Char) (rest : List Char) :
    scanAmpersand (letter :: rest) =
      match base? letter with
      | some (kind, digit) =>
        if run digit rest = 0 then (.symbol .ampersand, 1) else (kind, run digit rest + 2)
      | none => (.symbol .ampersand, 1) := by
  simp only [scanAmpersand, base?]
  split
  · rfl
  · split
    · rfl
    · split <;> rfl

theorem matches_of_base? {letter : Char} (base : base? letter = some (kind, digit))
    {d : List Char} (full : d ≠ []) (digits : ∀ c ∈ d, digit c = true) :
    kind.pattern.Matches ('&' :: letter :: d) := by
  unfold base? at base
  split at base
  · rename_i is
    cases base
    exact matches_based.2 ⟨letter, d, rfl, by rwa [Bool.or_comm], full, digits⟩
  · split at base
    · rename_i is
      cases base
      exact matches_based.2 ⟨letter, d, rfl, by rwa [Bool.or_comm], full, digits⟩
    · split at base
      · rename_i is
        cases base
        exact matches_based.2 ⟨letter, d, rfl, by rwa [Bool.or_comm], full, digits⟩
      · cases base

theorem base?_of_matches (is : kind = .hex ∨ kind = .octal ∨ kind = .binary)
    (matched : kind.pattern.Matches w) :
    ∃ letter d digit, w = '&' :: letter :: d ∧ base? letter = some (kind, digit) ∧ d ≠ [] ∧
      ∀ c ∈ d, digit c = true := by
  rcases is with rfl | rfl | rfl
  all_goals
    obtain ⟨letter, d, rfl, is, full, digits⟩ := matches_based.1 matched
    refine ⟨letter, d, _, rfl, ?_, full, digits⟩
    simp only [Bool.or_eq_true, beq_iff_eq] at is
    rcases is with rfl | rfl <;> rfl

theorem finds_scanAmpersand (rest : List Char) : Finds ('&' :: rest) (scanAmpersand rest) := by
  have kinds (other : TokenKind) (w : List Char) (begins : w <+: '&' :: rest)
      (matched : other.pattern.Matches w) :
      (w.length = 1 ∧ (other = .symbol .ampersand ∨ other.rank = 0)) ∨
      ∃ letter d digit, w = '&' :: letter :: d ∧ base? letter = some (other, digit) ∧ d ≠ [] ∧
        ∀ c ∈ d, digit c = true := by
    rcases ampersand_of_starts (starts_of_begins matched begins) with rfl | rfl | rfl | rfl | rfl
    · obtain rfl := matches_symbol.1 matched
      exact .inl ⟨rfl, .inl rfl⟩
    · exact .inr (base?_of_matches (.inl rfl) matched)
    · exact .inr (base?_of_matches (.inr (.inl rfl)) matched)
    · exact .inr (base?_of_matches (.inr (.inr rfl)) matched)
    · exact .inl ⟨length_of_matches_unknown matched, .inr rfl⟩
  -- where no number follows, the ampersand stands alone
  have alone (absent : ∀ letter d digit other, '&' :: letter :: d <+: '&' :: rest →
      base? letter = some (other, digit) → d ≠ [] → ¬ ∀ c ∈ d, digit c = true) :
      Finds ('&' :: rest) (.symbol .ampersand, 1) := by
    refine .of_best ['&'] rest rfl rfl (matches_symbol.2 rfl) ?_
    intro other w begins matched
    rcases kinds other w begins matched with
      ⟨one, rfl | low⟩ | ⟨letter, d, digit, rfl, is, full, digits⟩
    · exact .inr ⟨one, .inl rfl⟩
    · exact .inr ⟨one, .inr (by rw [low]; exact Nat.two_pos)⟩
    · exact absurd digits (absent letter d digit other begins is full)
  cases rest with
  | nil => exact alone fun letter d digit other begins => by simp at begins
  | cons letter rest =>
    rw [scanAmpersand_cons]
    cases base : base? letter with
    | none =>
      refine alone fun other d digit kind begins is => ?_
      rw [(List.cons_prefix_cons.1 (List.cons_prefix_cons.1 begins).2).1, base] at is
      cases is
    | some found =>
      obtain ⟨kind, digit⟩ := found
      -- the letter decides on the kind, so only this kind can follow
      have only {other : TokenKind} {digit' : Char → Bool} {letter' : Char} {d : List Char}
          (begins : '&' :: letter' :: d <+: '&' :: letter :: rest)
          (is : base? letter' = some (other, digit')) :
          other = kind ∧ digit' = digit ∧ d <+: rest := by
        obtain ⟨rfl, tail⟩ := List.cons_prefix_cons.1 (List.cons_prefix_cons.1 begins).2
        rw [base] at is
        cases is
        exact ⟨rfl, rfl, tail⟩
      obtain ⟨d, tail, split, length, digits, -⟩ := split_run digit rest
      dsimp only
      split
      · rename_i absent
        refine alone fun letter' d' digit' other begins is full inside => ?_
        obtain ⟨-, rfl, start⟩ := only begins is
        have short := length_le_run start inside
        exact full (List.length_eq_zero_iff.1 (by omega))
      · rename_i filled
        have full : d ≠ [] := by
          rintro rfl
          exact filled length.symm
        refine .of_best ('&' :: letter :: d) tail (by rw [split]; rfl)
          (by simp [length]) (matches_of_base? base full digits) ?_
        intro other w begins matched
        rcases kinds other w begins matched with
          ⟨one, -⟩ | ⟨letter', d', digit', rfl, is, -, inside⟩
        · exact .inl (by omega)
        · obtain ⟨rfl, rfl, start⟩ := only begins is
          have short := length_le_run start inside
          exact best_of_le (by simpa using short)

theorem matches_text :
    TokenKind.text.pattern.Matches w ↔ ∃ a, w = '"' :: (a ++ ['"']) ∧ '"' ∉ a := by
  rw [TokenKind.pattern, matches_one_seq]
  constructor
  · rintro ⟨_, _, rfl, opens, rest⟩
    obtain ⟨a, b, rfl, inside, closes⟩ := matches_seq.1 rest
    obtain ⟨_, rfl, quote⟩ := matches_one.1 closes
    obtain rfl := beq_iff_eq.1 opens
    obtain rfl := beq_iff_eq.1 quote
    refine ⟨a, rfl, fun mem => ?_⟩
    simpa using matches_many_one.1 inside _ mem
  · rintro ⟨a, rfl, inside⟩
    refine ⟨'"', _, rfl, rfl, .seq (matches_many_one.2 fun c mem => ?_) (.one rfl)⟩
    exact bne_iff_ne.2 fun eq => inside (eq ▸ mem)

theorem finds_scanQuote (rest : List Char) : Finds ('"' :: rest) (scanQuote rest) := by
  obtain ⟨a, tail, split, length, inside, eq⟩ := split_run (· != '"') rest
  have free : '"' ∉ a := fun mem => by simpa using inside _ mem
  have text (other : TokenKind) (w : List Char) (begins : w <+: '"' :: rest)
      (matched : other.pattern.Matches w) :
      other = .text ∧ w.length = run (· != '"') rest + 2 ∧ run (· != '"') rest < rest.length := by
    obtain rfl := quote_of_starts (starts_of_begins matched begins)
    obtain ⟨b, rfl, within⟩ := matches_text.1 matched
    have plain : ∀ c ∈ b, (c != '"') = true := fun c mem => bne_iff_ne.2 fun eq => within (eq ▸ mem)
    obtain ⟨same, more⟩ := run_of_stop (List.cons_prefix_cons.1 begins).2 plain rfl
    have long := more.length_le
    rw [List.length_drop, List.length_singleton] at long
    exact ⟨rfl, by simp [same], by omega⟩
  simp only [scanQuote]
  split
  · rename_i closed
    cases tail with
    | nil => exact absurd (List.drop_eq_nil_iff.1 eq.symm) (Nat.not_le.2 closed)
    | cons quote after =>
      have closes : quote = '"' := by simpa using stop_of_run eq.symm
      subst closes
      refine .of_best ('"' :: (a ++ ['"'])) after (by simp [split])
        (by simp [length]) (matches_text.2 ⟨a, rfl, free⟩) ?_
      intro other w begins matched
      obtain ⟨rfl, same, -⟩ := text other w begins matched
      exact .inr ⟨same, .inl rfl⟩
  · rename_i unclosed
    have all : a = rest := by
      have whole : rest.length ≤ a.length := by omega
      rw [split, List.length_append] at whole
      have absent : tail = [] := List.length_eq_zero_iff.1 (by omega)
      rw [split, absent, List.append_nil]
    refine ⟨'"' :: rest, [], by simp, by rw [List.length_cons, ← length, all],
      .unclosed rfl ?_ ?_ rfl⟩
    · intro other start begins matched
      exact unclosed (text other start begins matched).2.2
    · exact ⟨rest, rfl, all ▸ free⟩

structure Plain (c : Char) : Prop where
  gap : isGap c = false
  name : Text.isNameChar c = false
  quote : c ≠ '"'
  dot : c ≠ '.'
  ampersand : c ≠ '&'

theorem plain_kinds (plain : Plain c) (begins : w <+: c :: rest)
    (matched : kind.pattern.Matches w) :
    (∃ s, kind = .symbol s ∧ w = s.text.toList) ∨ kind = .unknown ∧ w.length = 1 := by
  have starts := starts_of_begins matched begins
  have noName : ¬ isNameChar c = true := by simp [plain.name]
  cases kind with
  | symbol s => exact .inl ⟨s, rfl, matches_symbol.1 matched⟩
  | unknown => exact .inr ⟨rfl, length_of_matches_unknown matched⟩
  | keyword k => exact absurd (isNameChar_of_start (Bool.or_eq_true_iff.2 (.inl starts))) noName
  | identifier => exact absurd (isNameChar_of_start starts) noName
  | integer => exact absurd (isNameChar_of_isDigit starts) noName
  | float =>
    rcases starts with digit | dot
    · exact absurd (isNameChar_of_isDigit digit) noName
    · exact absurd dot plain.dot
  | hex | octal | binary => exact absurd starts plain.ampersand
  | text => exact absurd starts plain.quote

theorem finds_symbol (plain : Plain c) (here : s.text.toList <+: c :: rest)
    (longest : ∀ other : Symbol, other.text.toList <+: c :: rest →
      other.text.toList.length ≤ s.text.toList.length) :
    Finds (c :: rest) (.symbol s, s.text.toList.length) := by
  obtain ⟨tail, eq⟩ := here
  refine .of_best _ _ eq.symm rfl (matches_symbol.2 rfl) ?_
  intro other w begins matched
  rcases plain_kinds plain begins matched with ⟨s', rfl, rfl⟩ | ⟨rfl, one⟩
  · rcases Nat.lt_or_eq_of_le (longest s' begins) with less | same
    · exact .inl less
    · -- two symbols of one length at one place are the same
      have text : s'.text.toList = s.text.toList := by
        rw [List.prefix_iff_eq_take.1 begins, same, ← eq, List.take_left]
      exact .inr ⟨same, .inl (congrArg _ (Symbol.eq_of_text (String.toList_inj.1 text)))⟩
  · rcases length_symbol s with single | double
    · exact .inr ⟨one.trans single.symm, .inr Nat.two_pos⟩
    · exact .inl (by omega)

theorem finds_unknown (plain : Plain c) (absent : ∀ s : Symbol, ¬ s.text.toList <+: c :: rest) :
    Finds (c :: rest) (.unknown, 1) := by
  refine .of_best [c] rest rfl rfl (matches_one.2 ⟨c, rfl, ?_⟩) ?_
  · simp [plain.gap, plain.name, plain.quote]
  · intro other w begins matched
    rcases plain_kinds plain begins matched with ⟨s, rfl, rfl⟩ | ⟨rfl, one⟩
    · exact absurd begins (absent s)
    · exact .inr ⟨one, .inl rfl⟩

theorem finds_single (plain : Plain c) (here : s.text.toList = [c])
    (alone : ∀ next after, rest = next :: after → (c, next) ∉ pairs) :
    Finds (c :: rest) (.symbol s, 1) := by
  have found := finds_symbol (s := s) plain (by simp [here]) fun other start => by
    rcases symbol_text other with one | ⟨pair, mem, text⟩
    · rw [one, here]
      exact Nat.le_refl 1
    · rw [text] at start
      obtain ⟨same, after, eq⟩ := List.cons_prefix_cons.1 start
      exact absurd (same ▸ mem) (alone pair.2 after eq.symm)
  rwa [here] at found

theorem finds_double (plain : Plain c) (two : s.text.toList.length = 2)
    (here : s.text.toList <+: c :: rest) : Finds (c :: rest) (.symbol s, 2) := by
  have found := finds_symbol plain here fun other _ => by
    rcases length_symbol other with one | pair <;> omega
  rwa [two] at found

theorem finds_scanSymbol (plain : Plain c) (rest : List Char) :
    Finds (c :: rest) (scanSymbol c rest) := by
  fun_cases scanSymbol c rest with
  | case1 | case2 | case3 | case4 | case5 => exact finds_double plain rfl ⟨_, rfl⟩
  | case6 | case7 | case8 | case9 =>
    -- the characters that can go on are those of the cases above
    refine finds_single plain rfl fun next after eq mem => ?_
    simp_all [pairs]
  | case25 =>
    refine finds_unknown plain fun s start => ?_
    have starts := starts_of_begins (matches_symbol.2 rfl) start
    have dot := plain.dot
    have ampersand := plain.ampersand
    cases s <;> (have first : c = _ := (Option.some.inj starts).symm; contradiction)
  | _ => exact finds_single plain rfl fun next after _ => by simp [pairs]

theorem finds_scan (rest : List Char) (black : isGap c = false) :
    Finds (c :: rest) (scan c rest) := by
  unfold scan
  split
  · exact finds_scanWord rest ‹_›
  split
  · exact finds_scanNumber rest ‹_›
  split
  · rename_i dot
    obtain rfl := beq_iff_eq.1 dot
    exact finds_scanDot rest
  split
  · rename_i ampersand
    obtain rfl := beq_iff_eq.1 ampersand
    exact finds_scanAmpersand rest
  split
  · rename_i quote
    obtain rfl := beq_iff_eq.1 quote
    exact finds_scanQuote rest
  · rename_i start digit dot ampersand quote
    refine finds_scanSymbol ⟨black, ?_, by simpa using quote, by simpa using dot,
      by simpa using ampersand⟩ rest
    simp_all [isNameChar, Char.isAlphanum]

end Token

end BasicSketch
