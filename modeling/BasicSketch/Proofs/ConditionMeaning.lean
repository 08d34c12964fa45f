import BasicSketch.Proofs.BasicCondition
import BasicSketch.Proofs.Flat
import BasicSketch.Proofs.Trimming
import BasicSketch.Sketch.Basic

set_option autoImplicit false

/-!
Conditions mean in C++ what they mean in the language, as far as they are portable: their text is
read in C++ as the same operators on the same operands.
-/

namespace BasicSketch.Cpp

open Token Text

def sign? : TokenKind → Option (Lexed × List Char)
  | .symbol .leftParen => some (.leftParen, ['('])
  | .symbol .rightParen => some (.rightParen, [')'])
  | .symbol .caret => some (.operator .xor, ['^'])
  | .symbol .star => some (.operator .multiply, ['*'])
  | .symbol .backslash => some (.operator .divide, ['/'])
  | .keyword .Mod => some (.operator .remainder, ['%'])
  | .symbol .plus => some (.operator .add, ['+'])
  | .symbol .minus => some (.operator .subtract, ['-'])
  | .symbol .equals => some (.operator .equal, ['=', '='])
  | .symbol .notEquals => some (.operator .notEqual, ['!', '='])
  | .symbol .lessThan => some (.operator .less, ['<'])
  | .symbol .greaterThan => some (.operator .greater, ['>'])
  | .symbol .lessEquals => some (.operator .lessEqual, ['<', '='])
  | .symbol .greaterEquals => some (.operator .greaterEqual, ['>', '='])
  | .keyword .Not => some (.not, ['!'])
  | .keyword .And => some (.operator .and, ['&', '&'])
  | .keyword .Or => some (.operator .or, ['|', '|'])
  | _ => none

def written (t : Token) : List Char := ((sign? t.kind).map Prod.snd).getD t.text.toList

def rendered : (before : List Token) → List Token → List Char
  | _, [] => []
  | before, t :: rest => (gapText before t).toList ++ (written t ++ rendered (t :: before) rest)

def lengthens (c : Char) : Bool := ['=', '<', '>', ':', '%', '*', '/', '+'].contains c

variable {cs : List Char} {kind : TokenKind} {l : Lexed} {c : Char} {t : Token}

theorem lex_sign {sign : List Char} (here : sign? kind = some (l, sign))
    (clear : ∀ c, cs.head? = some c → lengthens c = false)
    (spaced : kind = .symbol .minus → cs.head? ≠ some '-') :
    lex 0 (sign ++ cs) = (lex 0 cs).map (l :: ·) := by
  unfold sign? at here
  split at here <;> simp only [Option.some.injEq, Prod.mk.injEq, reduceCtorEq] at here
  all_goals
    obtain ⟨rfl, rfl⟩ := here
    refine lex_lexeme (by decide) ?_
    cases cs with
    | nil => rfl
    | cons d rest =>
      have apart := clear d rfl
      simp [lengthens] at apart
      simp_all [lexeme?, punctuator?, Text.isNameChar]

theorem takeWhile_word {p : Char → Bool} {word : List Char} (all : ∀ c ∈ word, p c = true)
    (ends : ∀ c, cs.head? = some c → p c = false) : (word ++ cs).takeWhile p = word := by
  rw [List.takeWhile_append_of_pos all]
  cases cs with
  | nil => simp
  | cons d rest => simp [ends d rfl]

theorem isSpace_of_isNameChar (name : isNameChar c = true) : isSpace c = false := by
  rcases Bool.eq_false_or_eq_true (isSpace c) with space | dark
  · simp only [isSpace, Bool.or_eq_true, beq_iff_eq] at space
    rcases space with ((((rfl | rfl) | rfl) | rfl) | rfl) | rfl <;> simp [isNameChar] at name
  · exact dark

theorem lex_name {name : String} (start : Named name) (chars : name.toList.all isNameChar = true)
    (free : name ∉ reserved) (ends : ∀ c, cs.head? = some c → isNameChar c = false) :
    lex 0 (name.toList ++ cs) = (lex 0 cs).map (.name name :: ·) := by
  have all : ∀ c ∈ name.toList, isNameChar c = true := List.all_eq_true.1 chars
  cases eq : name.toList with
  | nil => simp [Named, eq] at start
  | cons c rest =>
    have letter : (c.isAlpha || c == '_') = true := by simpa [Named, eq] using start
    have isName : isNameChar c = true := all c (eq ▸ List.mem_cons_self)
    have digit := not_isDigit_of_start letter
    have whole : (c :: (rest ++ cs)).takeWhile isNameChar = name.toList := by
      rw [← List.cons_append, ← eq]
      exact takeWhile_word all ends
    have length : name.length = rest.length + 1 := by
      rw [← String.length_toList, eq, List.length_cons]
    refine lex_lexeme (isSpace_of_isNameChar isName) ?_
    simp only [lexeme?, digit, Bool.false_eq_true, if_false, isName, if_true, whole,
      String.ofList_toList, length]
    simp [free]

theorem head?_toDigits {n : Nat} (pos : 0 < n) : (Nat.toDigits 10 n).head? ≠ some '0' := by
  induction n using Nat.strongRecOn with
  | ind n ih =>
    rw [Nat.toDigits_eq_if (by decide)]
    split
    · rename_i small
      have digit : ∀ d ∈ List.range' 1 9, d.digitChar ≠ '0' := by decide
      simpa using digit n (by simp; omega)
    · have first := ih (n / 10) (by omega) (by omega)
      cases eq : Nat.toDigits 10 (n / 10) with
      | nil => exact absurd eq (by simp)
      | cons c rest => simpa [eq] using first

theorem decimal?_nat (n : Nat) : decimal? (toString n).toList = some n := by
  have plain : ¬ ((toString n).toList.head? = some '0' ∧ (toString n).toList ≠ ['0']) := by
    rintro ⟨zero, more⟩
    rcases Nat.eq_zero_or_pos n with rfl | pos
    · exact more (by decide)
    · rw [Nat.toString_eq_repr, Nat.toList_repr] at zero
      exact head?_toDigits pos zero
  rw [decimal?, if_neg plain, readDigits?_nat]

theorem lex_number (n : Nat) (ends : ∀ c, cs.head? = some c → goesOnNumber c = false) :
    lex 0 ((toString n).toList ++ cs) = (lex 0 cs).map (.number n :: ·) := by
  have digits := isDigit_of_mem_nat n
  have all : ∀ c ∈ (toString n).toList, goesOnNumber c = true := by
    intro c mem
    simp [goesOnNumber, isNameChar, Char.isAlphanum, digits c mem]
  cases eq : (toString n).toList with
  | nil => simp at eq
  | cons c rest =>
    have digit : c.isDigit = true := digits c (eq ▸ List.mem_cons_self)
    have isName : isNameChar c = true := by simp [isNameChar, Char.isAlphanum, digit]
    have whole : (c :: (rest ++ cs)).takeWhile goesOnNumber = (toString n).toList := by
      rw [← List.cons_append, ← eq]
      exact takeWhile_word all ends
    refine lex_lexeme (isSpace_of_isNameChar isName) ?_
    simp only [lexeme?, digit, if_true, whole, decimal?_nat, Option.map_some]
    rw [eq, List.length_cons]

def leadsOperand : TokenKind → Bool
  | .symbol .leftParen | .symbol .minus | .keyword .Not => true
  | _ => false

/-- Operands and operators stand in turn; `out` is what the tokens are in C++. -/
inductive Flows (σ : Symbols) : (operand : Bool) → List Token → (out : List Lexed) → Prop
  | done : Flows σ false [] []
  | name {t : Token} {rest : List Token} {out : List Lexed} (kind : t.kind = .identifier)
    (keeps : Keeps σ t.text) (after : Flows σ false rest out) :
    Flows σ true (t :: rest) (.name t.text :: out)
  | number {t : Token} {rest : List Token} {out : List Lexed} (n : Nat) (kind : t.kind = .integer)
    (text : t.text = toString n) (after : Flows σ false rest out) :
    Flows σ true (t :: rest) (.number n :: out)
  | leads {t : Token} {rest : List Token} {out : List Lexed} {l : Lexed} {cs : List Char}
    (sign : sign? t.kind = some (l, cs)) (leads : leadsOperand t.kind = true)
    (after : Flows σ true rest out) : Flows σ true (t :: rest) (l :: out)
  | closes {t : Token} {rest : List Token} {out : List Lexed}
    (kind : t.kind = .symbol .rightParen) (after : Flows σ false rest out) :
    Flows σ false (t :: rest) (.rightParen :: out)
  | joins {t : Token} {rest : List Token} {out : List Lexed} {o : Binary} {cs : List Char}
    (sign : sign? t.kind = some (.operator o, cs)) (after : Flows σ true rest out) :
    Flows σ false (t :: rest) (.operator o :: out)

structure Sound (t : Token) : Prop where
  lexeme : Lexeme t.kind t.text.toList
  gap : ∀ c ∈ t.gap.toList, isGap c = true

theorem sound_of_mem_ofLine {line : String} (mem : t ∈ ofLine line) : Sound t :=
  ⟨lexeme_of_mem_ofLine mem, isGap_of_mem_ofLine mem⟩

def Spaced (ts : List Token) : Prop :=
  ts.IsChain fun t u => ¬ (t.kind = .symbol .minus ∧ u.kind = .symbol .minus ∧ u.gap = "")

theorem isGap_of_mem_gapText {before : List Token} (sound : Sound t) :
    ∀ c ∈ (gapText before t).toList, isGap c = true := by
  unfold gapText
  split
  · simp
  · split
    · simp
    · exact sound.gap

theorem isGap_cases (gap : isGap c = true) :
    isSpace c = true ∧ lengthens c = false ∧ goesOnNumber c = false ∧ c ≠ '-' := by
  simp only [isGap, Bool.or_eq_true, beq_iff_eq] at gap
  rcases gap with (((rfl | rfl) | rfl) | rfl) | rfl <;> decide

theorem isNameChar_cases (name : isNameChar c = true) : lengthens c = false ∧ c ≠ '-' := by
  refine ⟨?_, fun eq => by simp [eq, isNameChar] at name⟩
  by_contra long
  simp only [lengthens, Bool.not_eq_false, List.contains_iff_mem, List.mem_cons,
    List.not_mem_nil, or_false] at long
  rcases long with rfl | rfl | rfl | rfl | rfl | rfl | rfl | rfl <;> simp [isNameChar] at name

theorem sign_cases (sign : sign? kind = some (l, cs)) :
    cs ≠ [] ∧ cs.all (fun c => !isBlank c && !goesOnNumber c) = true ∧ kind.isMember = false ∧
      kind ≠ .keyword .New ∧ (kind.isWord && !isOperatorWord kind) = false := by
  unfold sign? at sign
  split at sign <;> simp only [Option.some.injEq, Prod.mk.injEq, reduceCtorEq] at sign
  all_goals
    obtain ⟨-, rfl⟩ := sign
    decide

theorem dark_of_sign (sign : sign? kind = some (l, cs)) (mem : c ∈ cs) :
    isBlank c = false ∧ goesOnNumber c = false := by
  simpa using List.all_eq_true.1 (sign_cases sign).2.1 c mem

theorem written_of_sign (sign : sign? t.kind = some (l, cs)) : written t = cs := by
  simp [written, sign]

theorem head_leads (sign : sign? kind = some (l, cs)) (leads : leadsOperand kind = true)
    (head : cs.head? = some c) : lengthens c = false ∧ (c = '-' → kind = .symbol .minus) := by
  unfold leadsOperand at leads
  split at leads
  case h_4 => simp at leads
  all_goals
    simp only [sign?, Option.some.injEq, Prod.mk.injEq] at sign
    obtain ⟨-, rfl⟩ := sign
    obtain rfl := Option.some.inj head
    decide

theorem head_rendered {before rest : List Token} (sound : Sound t) {d : Char}
    (first : (written t).head? = some d) (head : (rendered before (t :: rest)).head? = some c) :
    isGap c = true ∨ gapText before t = "" ∧ c = d := by
  rw [rendered, List.head?_append, List.head?_append, first] at head
  cases eq : (gapText before t).toList with
  | nil =>
    refine Or.inr ⟨String.toList_eq_nil_iff.1 eq, ?_⟩
    rw [eq] at head
    exact (Option.some.inj head).symm
  | cons e more =>
    rw [eq] at head
    obtain rfl : e = c := Option.some.inj head
    exact Or.inl (isGap_of_mem_gapText sound e (eq ▸ List.mem_cons_self))

section Flows

variable {σ : Symbols} {operand : Bool} {ts rest : List Token} {t : Token} {out : List Lexed}

theorem written_identifier (kind : t.kind = .identifier) : written t = t.text.toList := by
  simp [written, kind, sign?]

theorem written_integer {n : Nat} (kind : t.kind = .integer) (text : t.text = toString n) :
    written t = (toString n).toList := by
  simp [written, kind, sign?, text]

theorem named_identifier (sound : Sound t) (kind : t.kind = .identifier) : Named t.text := by
  have word : WordText t.text.toList := sound.lexeme.wordText (by rw [kind]; rfl)
  exact word.start

variable {before : List Token}

theorem Flows.head_operand (flows : Flows σ true ts out) (sound : ∀ t ∈ ts, Sound t)
    (head : (rendered before ts).head? = some c) :
    lengthens c = false ∧
      (c = '-' → ∃ t, ts.head? = some t ∧ t.kind = .symbol .minus ∧ gapText before t = "") := by
  generalize due : true = operand at flows
  cases flows with
  | done => simp at due
  | closes | joins => simp at due
  | @name t rest _ kind keeps after =>
    have here := sound t List.mem_cons_self
    cases eq : t.text.toList with
    | nil => exact absurd (named_identifier here kind) (by simp [Named, eq])
    | cons d more =>
      have isName : isNameChar d = true :=
        List.all_eq_true.1 keeps.2.1 d (eq ▸ List.mem_cons_self)
      have first : (written t).head? = some d := by rw [written_identifier kind, eq]; rfl
      rcases head_rendered here first head with gap | ⟨-, rfl⟩
      · exact ⟨(isGap_cases gap).2.1, fun minus => absurd minus (isGap_cases gap).2.2.2⟩
      · exact ⟨(isNameChar_cases isName).1, fun minus => absurd minus (isNameChar_cases isName).2⟩
  | @number t rest _ n kind text after =>
    have here := sound t List.mem_cons_self
    cases eq : (toString n).toList with
    | nil => simp at eq
    | cons d more =>
      have digit := isDigit_of_mem_nat n d (eq ▸ List.mem_cons_self)
      have isName : isNameChar d = true := by simp [isNameChar, Char.isAlphanum, digit]
      have first : (written t).head? = some d := by rw [written_integer kind text, eq]; rfl
      rcases head_rendered here first head with gap | ⟨-, rfl⟩
      · exact ⟨(isGap_cases gap).2.1, fun minus => absurd minus (isGap_cases gap).2.2.2⟩
      · exact ⟨(isNameChar_cases isName).1, fun minus => absurd minus (isNameChar_cases isName).2⟩
  | @leads t rest _ l cs sign leads after =>
    have here := sound t List.mem_cons_self
    cases eq : cs with
    | nil => exact absurd eq (sign_cases sign).1
    | cons d more =>
      have first : (written t).head? = some d := by rw [written_of_sign sign, eq]; rfl
      rcases head_rendered here first head with gap | ⟨touches, rfl⟩
      · exact ⟨(isGap_cases gap).2.1, fun minus => absurd minus (isGap_cases gap).2.2.2⟩
      · have facts := head_leads sign leads (by rw [eq]; rfl)
        exact ⟨facts.1, fun minus => ⟨t, rfl, facts.2 minus, touches⟩⟩

theorem Flows.head_operator (flows : Flows σ false ts out) (sound : ∀ t ∈ ts, Sound t)
    (head : (rendered before ts).head? = some c) : goesOnNumber c = false := by
  have signed {t : Token} {rest : List Token} {l : Lexed} {cs : List Char} (here : Sound t)
      (sign : sign? t.kind = some (l, cs)) (head : (rendered before (t :: rest)).head? = some c) :
      goesOnNumber c = false := by
    have some_char := (sign_cases sign).1
    cases eq : cs with
    | nil => exact absurd eq some_char
    | cons d more =>
      have first : (written t).head? = some d := by rw [written_of_sign sign, eq]; rfl
      rcases head_rendered here first head with gap | ⟨-, rfl⟩
      · exact (isGap_cases gap).2.2.1
      · exact (dark_of_sign sign (eq ▸ List.mem_cons_self)).2
  generalize due : false = operand at flows
  cases flows with
  | done => simp [rendered] at head
  | @closes t rest _ kind after =>
    exact signed (sound t List.mem_cons_self) (by rw [kind]; rfl) head
  | @joins t rest _ o cs sign after => exact signed (sound t List.mem_cons_self) sign head
  | name | number | leads => simp at due

theorem not_isNameChar_of_goesOn (ends : goesOnNumber c = false) : isNameChar c = false := by
  simp only [goesOnNumber, Bool.or_eq_false_iff] at ends
  exact ends.1

theorem lex_rendered (sound : Sound t) :
    lex 0 (rendered before (t :: rest)) = lex 0 (written t ++ rendered (t :: before) rest) :=
  lex_space (fun c mem => (isGap_cases (isGap_of_mem_gapText sound c mem)).1) _

theorem Spaced.tail (spaced : Spaced (t :: rest)) : Spaced rest := by
  cases rest with
  | nil => exact List.IsChain.nil
  | cons u more => exact (List.isChain_cons_cons.1 spaced).2

theorem Flows.lex_sign (after : Flows σ true rest out) (sound : ∀ t ∈ rest, Sound t)
    (spaced : Spaced (t :: rest)) (sign : sign? t.kind = some (l, cs)) (before : List Token) :
    lex 0 (cs ++ rendered (t :: before) rest) =
      (lex 0 (rendered (t :: before) rest)).map (l :: ·) := by
  refine Cpp.lex_sign sign (fun c head => (after.head_operand sound head).1) fun minus head => ?_
  obtain ⟨u, first, same, touches⟩ := (after.head_operand sound head).2 rfl
  cases rest with
  | nil => simp at first
  | cons v more =>
    obtain rfl : v = u := Option.some.inj first
    -- A minus sign keeps the gap behind it, so the two signs touched in the source.
    have gap : gapText (t :: before) v = v.gap := by simp [gapText, minus]
    exact (List.isChain_cons_cons.1 spaced).1 ⟨minus, same, gap.symm.trans touches⟩

theorem Flows.lex (flows : Flows σ operand ts out) (sound : ∀ t ∈ ts, Sound t)
    (spaced : Spaced ts) (before : List Token) : lex 0 (rendered before ts) = some out := by
  induction flows generalizing before with
  | done => rfl
  | @name t rest out kind keeps after ih =>
    have soundRest : ∀ u ∈ rest, Sound u := fun u mem => sound u (List.mem_cons_of_mem _ mem)
    have here := sound t List.mem_cons_self
    rw [lex_rendered here, written_identifier kind, lex_name (named_identifier here kind)
      keeps.2.1 keeps.2.2 fun c head =>
        not_isNameChar_of_goesOn (after.head_operator soundRest head),
      ih soundRest spaced.tail]
    rfl
  | @number t rest out n kind text after ih =>
    have soundRest : ∀ u ∈ rest, Sound u := fun u mem => sound u (List.mem_cons_of_mem _ mem)
    rw [lex_rendered (sound t List.mem_cons_self), written_integer kind text,
      lex_number n fun c head => after.head_operator soundRest head, ih soundRest spaced.tail]
    rfl
  | @leads t rest out l cs sign _ after ih | @joins t rest out l cs sign after ih =>
    have soundRest : ∀ u ∈ rest, Sound u := fun u mem => sound u (List.mem_cons_of_mem _ mem)
    rw [lex_rendered (sound t List.mem_cons_self), written_of_sign sign,
      after.lex_sign soundRest spaced sign, ih soundRest spaced.tail]
    rfl
  | @closes t rest out kind after ih =>
    have soundRest : ∀ u ∈ rest, Sound u := fun u mem => sound u (List.mem_cons_of_mem _ mem)
    have written : written t = [')'] := by simp [Cpp.written, kind, sign?]
    have token : lexeme? ')' ([] ++ rendered (t :: before) rest) = some (.rightParen, 1) := by
      simp [lexeme?, punctuator?, isNameChar]
    rw [lex_rendered (sound t List.mem_cons_self), written,
      lex_lexeme (by decide) token, ih soundRest spaced.tail]
    rfl

def Follows (operand : Bool) (before : List Token) : Prop :=
  ∀ t, before.head? = some t → t.kind.isMember = false ∧
    (operand = false → t.kind ≠ .symbol .equals ∧ t.text ≠ "!")

theorem spelling_sign (sound : Sound t) (sign : sign? t.kind = some (l, cs)) {after : List Token}
    (alone : t.kind = .symbol .equals → besideEquals before after = false) :
    spelling σ .condition before t after = String.ofList cs := by
  have lexeme := sound.lexeme
  unfold sign? at sign
  split at sign <;> simp only [Option.some.injEq, Prod.mk.injEq, reduceCtorEq] at sign
  all_goals
    rename_i kind
    obtain ⟨-, rfl⟩ := sign
    rw [kind] at lexeme
    simp only [spelling, kind]
  all_goals first
    | rfl
    | exact String.toList_inj.1 (lexeme.trans (by decide))
    | (rw [alone kind]; rfl)

theorem write_spelling (notNew : t.kind ≠ .keyword .New)
    (notWord : (t.kind.isWord && !isOperatorWord t.kind) = false) :
    write σ .condition before (t :: rest) =
      gapText before t ++ spelling σ .condition before t rest ++
        write σ .condition (t :: before) rest := by
  have notNew : (t.kind == .keyword .New) = false := by simpa using notNew
  have notWord : (t.isWord && !isOperatorWord t.kind) = false := notWord
  rw [write.eq_def]
  simp only [notNew, notWord, Bool.false_eq_true, if_false]

theorem write_sign (sound : Sound t) (sign : sign? t.kind = some (l, cs))
    (alone : t.kind = .symbol .equals → besideEquals before rest = false) :
    write σ .condition before (t :: rest) =
      gapText before t ++ String.ofList cs ++ write σ .condition (t :: before) rest := by
  obtain ⟨-, -, -, notNew, notWord⟩ := sign_cases sign
  rw [write_spelling notNew notWord, spelling_sign sound sign alone]

theorem Flows.argumentList? (flows : Flows σ false rest out) : argumentList? rest = none := by
  generalize due : false = operand at flows
  cases flows with
  | done => rfl
  | closes kind after => simp [Cpp.argumentList?, kind]
  | @joins t rest _ o cs sign after =>
    have other : t.kind ≠ .symbol .leftParen := by
      intro paren
      simp [paren, sign?] at sign
    simp [Cpp.argumentList?, other]
  | name | number | leads => simp at due

theorem write_identifier (kind : t.kind = .identifier) (keeps : Keeps σ t.text)
    (follows : Follows true before) (after : Flows σ false rest out) :
    write σ .condition before (t :: rest) =
      gapText before t ++ t.text ++ write σ .condition (t :: before) rest := by
  have noMember : before.head?.any (·.kind.isMember) = false := by
    cases before with
    | nil => rfl
    | cons u more => simpa using (follows u rfl).1
  have notNew : (t.kind == .keyword .New) = false := by rw [kind]; rfl
  have isWord : (t.isWord && !isOperatorWord t.kind) = true := by rw [Token.isWord, kind]; rfl
  rw [write.eq_def]
  simp only [notNew, isWord, noMember, Bool.false_eq_true, if_false, if_true, keeps.1]
  split
  · rfl
  · rename_i found
    simp [after.argumentList?] at found

theorem write_integer (kind : t.kind = .integer) :
    write σ .condition before (t :: rest) =
      gapText before t ++ t.text ++ write σ .condition (t :: before) rest := by
  rw [write_spelling (by simp [kind]) (by rw [kind]; rfl)]
  simp only [spelling, kind]

theorem Flows.not_equals (flows : Flows σ true rest out) :
    rest.head?.any (·.kind == .symbol .equals) = false := by
  generalize due : true = operand at flows
  cases flows with
  | done | closes | joins => simp at due
  | name kind | number _ kind => simp [kind]
  | @leads t rest _ l cs sign leads after =>
    have other : t.kind ≠ .symbol .equals := by
      intro equals
      simp [equals, leadsOperand] at leads
    simpa using other

theorem ofList_rendered (before : List Token) :
    String.ofList (rendered before (t :: rest)) =
      gapText before t ++ String.ofList (written t) ++
        String.ofList (rendered (t :: before) rest) := by
  rw [rendered, String.ofList_append, String.ofList_append, String.ofList_toList,
    String.append_assoc]

theorem Flows.write (flows : Flows σ operand ts out) (sound : ∀ t ∈ ts, Sound t)
    (follows : Follows operand before) :
    write σ .condition before ts = String.ofList (rendered before ts) := by
  have follows_sign {t : Token} {l : Lexed} {cs : List Char} (before : List Token)
      (sign : sign? t.kind = some (l, cs)) : Follows true (t :: before) := by
    intro u head
    obtain rfl := Option.some.inj head
    exact ⟨(sign_cases sign).2.2.1, by simp⟩
  induction flows generalizing before with
  | done => simp [Cpp.write, rendered]
  | @name t rest out kind keeps after ih =>
    have plain : t.text ≠ "!" := by
      intro eq
      exact absurd keeps.2.1 (by rw [eq]; decide)
    have next : Follows false (t :: before) := by
      intro u head
      obtain rfl := Option.some.inj head
      exact ⟨by simp [kind, TokenKind.isMember], fun _ => ⟨by simp [kind], plain⟩⟩
    rw [write_identifier kind keeps follows after,
      ih (fun u mem => sound u (List.mem_cons_of_mem _ mem)) next]
    rw [ofList_rendered, written_identifier kind, String.ofList_toList]
  | @number t rest out n kind text after ih =>
    have plain : t.text ≠ "!" := by
      intro eq
      have digit := isDigit_of_mem_nat n '!' (by rw [← text, eq]; decide)
      simp at digit
    have next : Follows false (t :: before) := by
      intro u head
      obtain rfl := Option.some.inj head
      exact ⟨by simp [kind, TokenKind.isMember], fun _ => ⟨by simp [kind], plain⟩⟩
    rw [write_integer kind, ih (fun u mem => sound u (List.mem_cons_of_mem _ mem)) next]
    rw [ofList_rendered, written_integer kind text, ← text, String.ofList_toList]
  | @leads t rest out l cs sign leads after ih =>
    have alone (equals : t.kind = .symbol .equals) : besideEquals before rest = false := by
      simp [equals, leadsOperand] at leads
    rw [write_sign (sound t List.mem_cons_self) sign alone,
      ih (fun u mem => sound u (List.mem_cons_of_mem _ mem)) (follows_sign before sign)]
    rw [ofList_rendered, written_of_sign sign]
  | @closes t rest out kind after ih =>
    have sign : sign? t.kind = some (.rightParen, [')']) := by rw [kind]; rfl
    have here := sound t List.mem_cons_self
    have text : t.text.toList = [')'] := by
      have lexeme := here.lexeme
      rw [kind] at lexeme
      exact lexeme.trans (by decide)
    have next : Follows false (t :: before) := by
      intro u head
      obtain rfl := Option.some.inj head
      refine ⟨by simp [kind, TokenKind.isMember], fun _ => ⟨by simp [kind], fun eq => ?_⟩⟩
      rw [eq] at text
      exact absurd text (by decide)
    rw [write_sign here sign (by simp [kind]),
      ih (fun u mem => sound u (List.mem_cons_of_mem _ mem)) next]
    rw [ofList_rendered, written_of_sign sign]
  | @joins t rest out o cs sign after ih =>
    have alone (_ : t.kind = .symbol .equals) : besideEquals before rest = false := by
      have unlike : before.head?.any (fun t => t.kind == .symbol .equals || t.text == "!") =
          false := by
        cases before with
        | nil => rfl
        | cons u more => simpa using (follows u rfl).2 rfl
      simp only [besideEquals, unlike, after.not_equals, Bool.or_false]
    rw [write_sign (sound t List.mem_cons_self) sign alone,
      ih (fun u mem => sound u (List.mem_cons_of_mem _ mem)) (follows_sign before sign)]
    rw [ofList_rendered, written_of_sign sign]

theorem isBlank_of_isNameChar (name : isNameChar c = true) : isBlank c = false := by
  have leads := leads_of_isNameChar name
  simp only [Bool.and_eq_true, Bool.not_eq_true'] at leads
  exact leads.1

theorem Flows.dark (flows : Flows σ operand ts out) (sound : ∀ t ∈ ts, Sound t) :
    ∀ t ∈ ts, written t ≠ [] ∧ ∀ c ∈ written t, isBlank c = false := by
  have signed {t : Token} {l : Lexed} {cs : List Char} (sign : sign? t.kind = some (l, cs)) :
      written t ≠ [] ∧ ∀ c ∈ written t, isBlank c = false := by
    rw [written_of_sign sign]
    exact ⟨(sign_cases sign).1, fun c mem => (dark_of_sign sign mem).1⟩
  induction flows with
  | done => simp
  | @name t rest out kind keeps after ih =>
    refine List.forall_mem_cons.2 ⟨?_, ih fun u mem => sound u (List.mem_cons_of_mem _ mem)⟩
    have named := named_identifier (sound t List.mem_cons_self) kind
    rw [written_identifier kind]
    refine ⟨fun absent => by simp [Named, absent] at named, fun c mem => ?_⟩
    exact isBlank_of_isNameChar (List.all_eq_true.1 keeps.2.1 c mem)
  | @number t rest out n kind text after ih =>
    refine List.forall_mem_cons.2 ⟨?_, ih fun u mem => sound u (List.mem_cons_of_mem _ mem)⟩
    rw [written_integer kind text]
    refine ⟨by simp, fun c mem => isBlank_of_isNameChar ?_⟩
    simp [isNameChar, Char.isAlphanum, isDigit_of_mem_nat n c mem]
  | leads sign _ _ ih | joins sign _ ih =>
    exact List.forall_mem_cons.2
      ⟨signed sign, ih fun u mem => sound u (List.mem_cons_of_mem _ mem)⟩
  | @closes t rest out kind after ih =>
    exact List.forall_mem_cons.2 ⟨signed (show sign? t.kind = _ by rw [kind]; rfl),
      ih fun u mem => sound u (List.mem_cons_of_mem _ mem)⟩

theorem getLast?_rendered (dark : ∀ t ∈ ts, written t ≠ [] ∧ ∀ c ∈ written t, isBlank c = false)
    (before : List Token) (last : (rendered before ts).getLast? = some c) : isBlank c = false := by
  induction ts generalizing before with
  | nil => simp [rendered] at last
  | cons t rest ih =>
    rw [rendered, List.getLast?_append, List.getLast?_append] at last
    cases eq : (rendered (t :: before) rest).getLast? with
    | some d =>
      obtain rfl : d = c := by simpa [eq] using last
      exact ih (fun u mem => dark u (List.mem_cons_of_mem _ mem)) (t :: before) eq
    | none =>
      obtain ⟨some_char, all⟩ := dark t List.mem_cons_self
      have final : (written t).getLast? = some c := by
        simp only [eq, Option.none_or, Option.or_eq_some_iff, List.getLast?_eq_none_iff] at last
        exact last.resolve_right fun gapped => some_char gapped.1
      exact all c (List.mem_of_getLast? final)

theorem Flows.condition (e : Expr) (flows : Flows σ true (Token.ofLine e.text) out) :
    (condition σ e).toList = rendered [] (Token.ofLine e.text) := by
  have sound : ∀ t ∈ Token.ofLine e.text, Sound t := fun t mem => sound_of_mem_ofLine mem
  have dark := flows.dark sound
  have first (c : Char) (head : (rendered [] (Token.ofLine e.text)).head? = some c) :
      isBlank c = false := by
    cases eq : Token.ofLine e.text with
    | nil => simp [eq, rendered] at head
    | cons t rest =>
      obtain ⟨some_char, all⟩ := dark t (eq ▸ List.mem_cons_self)
      cases text : written t with
      | nil => exact absurd text some_char
      | cons d more =>
        obtain rfl : d = c := by simpa [eq, rendered, gapText, text] using head
        exact all d (text ▸ List.mem_cons_self)
  have last (c : Char) : (rendered [] (Token.ofLine e.text)).getLast? = some c →
      isBlank c = false := getLast?_rendered dark []
  rw [Cpp.condition, expression, flows.write sound (by simp [Follows]),
    trim_eq_of_ends (by simpa using first) (by simpa using last), String.toList_ofList]

end Flows

end BasicSketch.Cpp

namespace BasicSketch

open Cpp

variable {t : Token}

theorem Token.kind_of_word_mark {kind : TokenKind} (word : t.word = .mark kind) :
    t.kind = kind := by
  unfold Token.word at word
  split at word <;> simp_all

theorem Token.of_word_name {v : String} (word : t.word = .name v) :
    t.kind = .identifier ∧ t.text = v := by
  unfold Token.word at word
  split at word <;> simp_all

theorem Token.of_word_number {text : String} (word : t.word = .number text) :
    t.kind = .integer ∧ t.text = text := by
  unfold Token.word at word
  split at word <;> simp_all

section Turns

variable {σ : Symbols} {out : List Lexed}

def Turns (σ : Symbols) (words : List Word) (out : List Lexed) : Prop :=
  ∀ ts rest more, ts.map Token.word = words → Flows σ false rest more →
    Flows σ true (ts ++ rest) (out ++ more)

theorem Turns.leads {words : List Word} {kind : TokenKind} {l : Lexed} {cs : List Char}
    (turns : Turns σ words out) (sign : sign? kind = some (l, cs))
    (leads : leadsOperand kind = true) : Turns σ (.mark kind :: words) (l :: out) := by
  intro ts rest more same after
  obtain ⟨t, us, rfl, word, others⟩ := List.map_eq_cons_iff.1 same
  have is := Token.kind_of_word_mark word
  exact .leads (is ▸ sign) (is ▸ leads) (turns us rest more others after)

theorem Turns.paren {words : List Word} (turns : Turns σ words out) :
    Turns σ (.mark (.symbol .leftParen) :: (words ++ [.mark (.symbol .rightParen)]))
      (.leftParen :: (out ++ [.rightParen])) := by
  refine Turns.leads (fun ts rest more same after => ?_) rfl rfl
  obtain ⟨us, closing, rfl, inside, last⟩ := List.map_eq_append_iff.1 same
  obtain ⟨t, absent, rfl, word, empty⟩ := List.map_eq_cons_iff.1 last
  obtain rfl := List.map_eq_nil_iff.1 empty
  rw [List.append_assoc, List.append_assoc]
  exact turns us _ _ inside (.closes (Token.kind_of_word_mark word) after)

theorem Turns.joins {words words' : List Word} {kind : TokenKind} {o : Binary} {cs : List Char}
    {out' : List Lexed} (first : Turns σ words out) (second : Turns σ words' out')
    (sign : sign? kind = some (.operator o, cs)) :
    Turns σ (words ++ .mark kind :: words') (out ++ .operator o :: out') := by
  intro ts rest more same after
  obtain ⟨us, joined, rfl, left, others⟩ := List.map_eq_append_iff.1 same
  obtain ⟨t, vs, rfl, word, right⟩ := List.map_eq_cons_iff.1 others
  rw [List.append_assoc, List.append_assoc]
  exact first us _ _ left (.joins (Token.kind_of_word_mark word ▸ sign)
    (second vs rest more right after))

theorem Term.turns {t : Term} (keeps : t.Keeps σ) : Turns σ t.words t.lexed := by
  induction t with
  | name v =>
    intro ts rest more same after
    obtain ⟨t, absent, rfl, word, empty⟩ := List.map_eq_cons_iff.1 same
    obtain rfl := List.map_eq_nil_iff.1 empty
    obtain ⟨kind, rfl⟩ := Token.of_word_name word
    exact .name kind keeps after
  | number n =>
    intro ts rest more same after
    obtain ⟨t, absent, rfl, word, empty⟩ := List.map_eq_cons_iff.1 same
    obtain rfl := List.map_eq_nil_iff.1 empty
    obtain ⟨kind, text⟩ := Token.of_word_number word
    exact .number n kind text after
  | paren t ih => exact (ih keeps).paren
  | negate t ih => exact (ih keeps).leads rfl rfl
  | binary o a b left right => cases o <;> exact (left keeps.1).joins (right keeps.2) rfl

variable {c : Condition}

theorem Condition.turns (keeps : c.Keeps σ) : Turns σ c.words c.lexed := by
  induction c with
  | compare o a b => cases o <;> exact (Term.turns keeps.1).joins (Term.turns keeps.2) rfl
  | paren c ih => exact (ih keeps).paren
  | not c ih => exact (ih keeps).leads rfl rfl
  | and a b left right | or a b left right => exact (left keeps.1).joins (right keeps.2) rfl

theorem Condition.flows {text : String} (reads : c.Reads text) (keeps : c.Keeps σ) :
    Flows σ true (Token.ofLine text) c.lexed := by
  have flows := Condition.turns keeps _ [] [] reads.1 .done
  rwa [List.append_nil, List.append_nil] at flows

theorem Condition.lex_condition {text : String} (reads : c.Reads text) (keeps : c.Keeps σ)
    (spaced : Spaced (Token.ofLine text)) :
    lex 0 (Cpp.condition σ ⟨text⟩).toList = some c.lexed := by
  have flows := Condition.flows reads keeps
  rw [Flows.condition ⟨text⟩ flows]
  exact flows.lex (fun t mem => sound_of_mem_ofLine mem) spaced []

end Turns

/-- A portable condition holds in C++ exactly if it holds in the language, for all values of the
variables that give it a value. -/
theorem portable_condition_kept (s : Sketch) {text : String} {c : Condition}
    (reads : c.Reads text) (portable : c.Portable) (keeps : c.Keeps s.symbols)
    (spaced : Spaced (Token.ofLine text)) {ρ : String → Int} {b : Bool}
    (value : c.eval ρ = some b) : Cpp.holds? ρ (s.condition ⟨text⟩) = some b := by
  have read : Cpp.read (s.condition ⟨text⟩) = some c.cpp :=
    read_of_spelled (Condition.lex_condition reads keeps spaced)
      (Condition.spelled reads.2 portable)
  rw [holds?, read, Option.bind_some, Condition.eval_cpp portable value]
  cases b <;> rfl

theorem portable_condition_kept_mixed :
    let text := "Not (a Mod -3 = b \\ 2) And x * 2 - -y >= 10 Or Not Not (a <> 7)"
    let c : Condition :=
      .or (.and
          (.not (.paren (.compare .equal (.binary .modulo (.name "a") (.negate (.number 3)))
            (.binary .divide (.name "b") (.number 2)))))
          (.compare .greaterEqual (.binary .subtract (.binary .multiply (.name "x") (.number 2))
            (.negate (.name "y"))) (.number 10)))
        (.not (.not (.paren (.compare .notEqual (.name "a") (.number 7)))))
    let ρ : String → Int := fun v => if v = "a" then 7 else if v = "b" then -5 else 4
    let s := Sketch.empty Options.standard
    c.Reads text ∧ c.Portable ∧ c.Keeps s.symbols ∧ Spaced (Token.ofLine text) ∧
      c.eval ρ = some true ∧ Cpp.holds? ρ (s.condition ⟨text⟩) = some true := by
  intro text c ρ s
  have reads : c.Reads text := by
    refine ⟨by decide, ?_⟩
    simp [c, Condition.Fits, Term.Fits, Condition.level, Term.level, Arithmetic.level,
      signLevel, comparisonLevel]
  have portable : c.Portable := by
    simp [c, Condition.Portable, Term.Portable, Condition.level, Term.level, signLevel,
      comparisonLevel]
  have named : ∀ v ∈ ["a", "b", "x", "y"], Cpp.Keeps s.symbols v := by
    unfold Cpp.Keeps
    decide +kernel
  have keeps : c.Keeps s.symbols := by
    simp only [List.forall_mem_cons] at named
    simp [c, Condition.Keeps, Term.Keeps, named]
  have spaced : Spaced (Token.ofLine text) := by
    unfold Spaced
    decide +kernel
  have value : c.eval ρ = some true := by decide +kernel
  exact ⟨reads, portable, keeps, spaced, value,
    portable_condition_kept s reads portable keeps spaced value⟩

/-- The text is a condition, and for some values it does not hold in C++ exactly if it holds in
the language. -/
def Condition.Lost (s : Sketch) (text : String) : Prop :=
  ∃ (c : Condition) (ρ : String → Int) (b : Bool),
    c.Reads text ∧ c.eval ρ = some b ∧ Cpp.holds? ρ (s.condition ⟨text⟩) ≠ some b

/-- Each restriction is needed. -/
theorem unportable_conditions_lost :
    Condition.Lost (Sketch.empty Options.standard) "Not a = b" ∧
    Condition.Lost (Sketch.empty Options.standard) "a ^ 2 = b" ∧
    Condition.Lost (Sketch.empty Options.standard) "a \\ b * c = 2" ∧
    Condition.Lost (Sketch.empty Options.standard) "a Mod b * c = 1" ∧
    Condition.Lost (Sketch.empty Options.standard) "a Mod b \\ c = 1" ∧
    Condition.Lost (Sketch.empty Options.standard) "a--b = 3" ∧
    Condition.Lost (Sketch.empty Options.standard) "sizeof = 1" ∧
    Condition.Lost (Sketch.empty Options.standard) "tau = 6" := by
  refine ⟨?_, ?_, ?_, ?_, ?_, ?_, ?_, ?_⟩
  · refine ⟨.not (.compare .equal (.name "a") (.name "b")), fun v => if v = "a" then 2 else 1,
      true, ⟨by decide, ?_⟩, by decide +kernel, by decide +kernel⟩
    simp [Condition.Fits, Term.Fits, Condition.level, comparisonLevel]
  · refine ⟨.compare .equal (.binary .power (.name "a") (.number 2)) (.name "b"), fun _ => 0,
      true, ⟨by decide, ?_⟩, by decide +kernel, by decide +kernel⟩
    simp [Condition.Fits, Term.Fits, Term.level, Arithmetic.level]
  · refine ⟨.compare .equal (.binary .divide (.name "a") (.binary .multiply (.name "b")
      (.name "c"))) (.number 2), fun v => if v = "a" then 8 else 2,
      true, ⟨by decide, ?_⟩, by decide +kernel, by decide +kernel⟩
    simp [Condition.Fits, Term.Fits, Term.level, Arithmetic.level]
  · refine ⟨.compare .equal (.binary .modulo (.name "a") (.binary .multiply (.name "b")
      (.name "c"))) (.number 1), fun v => if v = "a" then 7 else if v = "b" then 3 else 2,
      true, ⟨by decide, ?_⟩, by decide +kernel, by decide +kernel⟩
    simp [Condition.Fits, Term.Fits, Term.level, Arithmetic.level]
  · refine ⟨.compare .equal (.binary .modulo (.name "a") (.binary .divide (.name "b")
      (.name "c"))) (.number 1), fun v => if v = "a" then 7 else if v = "b" then 6 else 2,
      true, ⟨by decide, ?_⟩, by decide +kernel, by decide +kernel⟩
    simp [Condition.Fits, Term.Fits, Term.level, Arithmetic.level]
  · refine ⟨.compare .equal (.binary .subtract (.name "a") (.negate (.name "b"))) (.number 3),
      fun v => if v = "a" then 1 else 2,
      true, ⟨by decide, ?_⟩, by decide +kernel, by decide +kernel⟩
    simp [Condition.Fits, Term.Fits, Term.level, Arithmetic.level, signLevel]
  · exact ⟨.compare .equal (.name "sizeof") (.number 1), fun _ => 1, true,
      ⟨by decide, trivial, trivial⟩, by decide +kernel, by decide +kernel⟩
  · exact ⟨.compare .equal (.name "tau") (.number 6), fun _ => 6, true,
      ⟨by decide, trivial, trivial⟩, by decide +kernel, by decide +kernel⟩

end BasicSketch
