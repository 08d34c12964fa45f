import BasicSketch.Proofs.FlatExpression
import BasicSketch.Proofs.Relexing

set_option autoImplicit false

/-! Expressions that are written as self-contained code. -/

namespace BasicSketch

open Text

def TokenKind.isBetween : TokenKind → Bool
  | .symbol .slash | .symbol .backslash | .symbol .star | .symbol .comma => true
  | _ => false

namespace Cpp

inductive Edge where
  | opening
  | operator
  | operand
  deriving DecidableEq, Repr

namespace Edge

def of (t : Token) : Edge :=
  if t.kind.isBetween then .operator else if t.nesting == .opens then .opening else .operand

def admits : Edge → Token → Bool
  | .opening, t => !t.kind.isBetween
  | .operator, t => !t.kind.isBetween && t.nesting != .closes
  | .operand, _ => true

end Edge

/-- Each operator and each comma has an operand on both sides. -/
def paired : Edge → List Token → Bool
  | last, [] => last != .operator
  | last, t :: ts => last.admits t && paired (.of t) ts

theorem of_symbol {t : Token} (s : Symbol) (kind : t.kind = .symbol s) :
    Edge.of t = Edge.of ⟨.symbol s, "", "", 0⟩ := by
  simp [Edge.of, Token.nesting, kind]

variable {last : Edge} {ts : List Token}

variable {close : Token} {inside tail : List Token} {text : String}

theorem paired_close (kind : close.kind = .symbol .rightParen)
    (all : paired last (inside ++ close :: tail) = true) :
    paired last inside = true ∧ paired .operand tail = true := by
  induction inside generalizing last with
  | nil =>
    obtain ⟨admitted, rest⟩ := Bool.and_eq_true_iff.1 all
    have closes : close.nesting = .closes := by simp [Token.nesting, kind]
    rw [of_symbol _ kind] at rest
    refine ⟨?_, rest⟩
    cases last <;> simp_all [paired, Edge.admits]
  | cons t inside ih =>
    obtain ⟨admitted, rest⟩ := Bool.and_eq_true_iff.1 all
    obtain ⟨here, there⟩ := ih rest
    exact ⟨Bool.and_eq_true_iff.2 ⟨admitted, here⟩, there⟩

theorem paired_argumentList? (all : paired last ts = true)
    (list : argumentList? ts = some (inside, close, tail)) :
    paired .opening inside = true ∧ paired .operand tail = true := by
  cases ts with
  | nil => cases list
  | cons first more =>
    simp only [argumentList?] at list
    split at list
    · rename_i opens
      obtain ⟨-, rest⟩ := Bool.and_eq_true_iff.1 all
      rw [of_symbol _ (beq_iff_eq.1 opens), ← closeParen?_append list] at rest
      exact paired_close (kind_closeParen? list) rest
    · cases list

theorem paired_opening (all : paired .operator ts = true) :
    paired .opening ts = true ∧ ts ≠ [] := by
  cases ts with
  | nil => cases all
  | cons t ts =>
    obtain ⟨admitted, rest⟩ := Bool.and_eq_true_iff.1 all
    obtain ⟨between, -⟩ := Bool.and_eq_true_iff.1 admitted
    exact ⟨Bool.and_eq_true_iff.2 ⟨between, rest⟩, List.cons_ne_nil t ts⟩

theorem paired_splitPieces (depth : Int) (all : paired last ts = true) :
    ∃ first more, splitPieces depth ts = first :: more ∧ paired last first = true ∧
      (last = .opening → ts ≠ [] → first ≠ []) ∧
      ∀ piece ∈ more, paired .opening piece = true ∧ piece ≠ [] := by
  induction ts generalizing last depth with
  | nil => exact ⟨[], [], rfl, all, by simp, by simp⟩
  | cons t ts ih =>
    obtain ⟨admitted, rest⟩ := Bool.and_eq_true_iff.1 all
    unfold splitPieces
    split
    · rename_i comma
      obtain ⟨-, comma⟩ := Bool.and_eq_true_iff.1 comma
      have kind := beq_iff_eq.1 comma
      have between : t.kind.isBetween = true := by rw [kind]; rfl
      rw [of_symbol _ kind] at rest
      obtain ⟨here, filled⟩ := paired_opening rest
      obtain ⟨first, more, eq, start, full, others⟩ := ih 0 here
      refine ⟨[], _, rfl, ?_, ?_, ?_⟩
      · cases last <;> simp_all [Edge.admits, paired]
      · rintro rfl
        simp [Edge.admits, between] at admitted
      · rw [eq]
        exact List.forall_mem_cons.2 ⟨⟨start, full rfl filled⟩, others⟩
    · obtain ⟨first, more, eq, start, -, others⟩ := ih (depthAcross depth t) rest
      rw [eq]
      exact ⟨t :: first, more, rfl, Bool.and_eq_true_iff.2 ⟨admitted, start⟩, by simp, others⟩

theorem paired_splitArguments (all : paired .opening ts = true) :
    ∀ piece ∈ splitArguments ts, paired .opening piece = true ∧ piece ≠ [] := by
  unfold splitArguments
  split
  · simp
  · rename_i some
    obtain ⟨first, more, eq, start, full, others⟩ := paired_splitPieces 0 all
    rw [eq]
    exact List.forall_mem_cons.2 ⟨⟨start, full rfl (by simpa using some)⟩, others⟩

def IsOperand (text : String) : Prop := Contained text ∧ LeadsOperand text

instance (text : String) : Decidable (IsOperand text) := inferInstanceAs (Decidable (_ ∧ _))

theorem contained_fillText {fill : String} (contained : Contained fill) :
    Contained (fillText fill) := by
  unfold fillText
  split
  · rename_i c eq
    split
    · exact contained
    · rename_i other
      have ends := contained.1
      rw [eq] at ends
      have quote : c ≠ '\x22' := by
        rintro rfl
        cases ends
      have slash : c ≠ '\\' := by
        rintro rfl
        cases ends
      have apostrophe : c ≠ '\x27' := by simpa using other
      have inside : Region.code.after ['\x27', c, '\x27'] = .code := by
        simp [Region.next, Region.enter, apostrophe, slash]
      exact contained_ofList ⟨inside, inside⟩
  · exact contained

theorem clearSpelling : Spelling (fun _ _ => IsOperand) fun _ _ => Contained where
  follows operand := operand.1
  leads contained leads := ⟨contained, leads⟩
  append first second := ⟨first.1.append second, first.2.append _⟩
  join first second := first.append second
  fixed _ contained _ := contained
  fill contained i := contained_fillText (contained i)

theorem isOperand_of_wordText (word : Token.WordText text.toList) : IsOperand text := by
  refine ⟨contained_of_unmarked fun c mem => ?_, leadsOperand_of_named word.start⟩
  rcases word.chars c mem with name | rfl
  · exact isUnmarked_of_isNameChar name
  · decide

theorem fixedTexts_clear : ∀ text ∈ fixedTexts, IsOperand text := by decide

theorem isOperand_bareName (σ : Symbols) {name : String} (named : IsOperand name) :
    IsOperand (bareName σ name) := by
  rcases bareName_eq σ name with same | fixed
  · rwa [same]
  · exact fixedTexts_clear _ fixed

end Cpp

namespace Token

open Cpp

def isClear (t : Token) : Bool :=
  (t.kind != .text && t.kind != .unknown) || decide (IsOperand t.text)

structure Legible (t : Token) : Prop where
  white : ∀ c ∈ t.gap.toList, isBlank c = true
  named : t.isWord = true → IsOperand t.text
  spelled : ∀ (σ : Symbols) (mode : Mode) (before after : List Token),
    if t.kind.isBetween then spelling σ mode before t after ∈ ["/", "*", ","]
    else IsOperand (spelling σ mode before t after)

theorem isOperand_digits {digits start : List Char}
    (chars : ∀ c ∈ digits, isNameChar c = true) (leads : IsOperand (String.ofList start)) :
    IsOperand (String.ofList start ++ String.ofList digits) := by
  refine ⟨leads.1.append (contained_of_unmarked fun c mem => ?_), leads.2.append _⟩
  exact isUnmarked_of_isNameChar (chars c (by simpa using mem))

theorem isOperand_number {text : String} (filled : text.toList ≠ [])
    (chars : ∀ c ∈ text.toList, isNameChar c = true ∨ c ∈ ['.', '+', '-']) : IsOperand text := by
  have marks : ∀ c ∈ ['.', '+', '-'],
      isUnmarked c = true ∧ isBlank c = false ∧ c ≠ '/' ∧ c ≠ '*' := by
    simp [isUnmarked, isBlank]
  refine ⟨contained_of_unmarked fun c mem => ?_, ?_⟩
  · rcases chars c mem with name | mark
    · exact isUnmarked_of_isNameChar name
    · exact (marks c mark).1
  · cases eq : text.toList with
    | nil => exact absurd eq filled
    | cons c rest =>
      rcases chars c (by simp [eq]) with name | mark
      · have leads := leads_of_isNameChar name
        refine ⟨by simpa [LeadsCode, eq] using leads, ?_⟩
        rw [eq]
        rintro ⟨⟩
        cases name
      · obtain ⟨-, dark, slash, star⟩ := marks c mark
        simp [LeadsOperand, LeadsCode, eq, dark, slash, star]

variable {t : Token}

theorem legible_symbol {s : Symbol} (kind : t.kind = .symbol s) (text : t.text = s.text)
    (σ : Symbols) (mode : Mode) (before after : List Token) :
    if t.kind.isBetween then spelling σ mode before t after ∈ ["/", "*", ","]
    else IsOperand (spelling σ mode before t after) := by
  unfold spelling
  cases s
  all_goals
    simp only [kind, text, TokenKind.isBetween, Symbol.text, Bool.false_eq_true, if_true, if_false]
    repeat' split
    all_goals decide

theorem legible_of_matches (matched : t.kind.pattern.Matches t.text.toList)
    (clear : t.isClear = true) (word : t.isWord = true → IsOperand t.text) (σ : Symbols)
    (mode : Mode) (before after : List Token) :
    if t.kind.isBetween then spelling σ mode before t after ∈ ["/", "*", ","]
    else IsOperand (spelling σ mode before t after) := by
  cases kind : t.kind with
  | symbol s =>
    rw [kind] at matched
    rw [← kind]
    exact legible_symbol kind (String.toList_inj.1 (matches_symbol.1 matched)) σ mode before after
  | keyword k =>
    have named := word (by rw [isWord, kind]; rfl)
    unfold spelling
    cases k
    all_goals
      simp only [kind, TokenKind.isBetween, Bool.false_eq_true, if_false]
      first | exact named | decide
  | identifier =>
    simpa [spelling, kind, TokenKind.isBetween] using word (by rw [isWord, kind]; rfl)
  | integer =>
    rw [kind] at matched
    obtain ⟨filled, digits⟩ := Pattern.matches_atLeastOne.1 matched
    have number := isOperand_number filled fun c mem => .inl (isNameChar_of_isDigit (digits c mem))
    simpa [spelling, kind, TokenKind.isBetween] using number
  | float =>
    rw [kind] at matched
    obtain ⟨c, more, eq, -⟩ := starts_of_matches matched
    have number := isOperand_number (by simp [eq]) (float_chars matched)
    simpa [spelling, kind, TokenKind.isBetween] using number
  | text | unknown => simpa [isClear, spelling, kind, TokenKind.isBetween] using clear
  | hex =>
    rw [kind] at matched
    obtain ⟨b, d, eq, -, -, digits⟩ := matches_based.1 matched
    simp only [spelling, kind, TokenKind.isBetween, eq]
    exact isOperand_digits (fun c mem => isNameChar_of_isHexDigit (digits c mem)) (by decide)
  | octal =>
    rw [kind] at matched
    obtain ⟨b, d, eq, -, -, digits⟩ := matches_based.1 matched
    simp only [spelling, kind, TokenKind.isBetween, eq]
    exact isOperand_digits (fun c mem => isNameChar_of_isOctalDigit (digits c mem)) (by decide)
  | binary =>
    rw [kind] at matched
    obtain ⟨b, d, eq, -, -, digits⟩ := matches_based.1 matched
    simp only [spelling, kind, TokenKind.isBetween, eq]
    refine isOperand_digits (fun c mem => ?_) (by decide)
    rcases Bool.or_eq_true_iff.1 (digits c mem) with zero | one
    · rw [beq_iff_eq.1 zero]
      decide
    · rw [beq_iff_eq.1 one]
      decide

theorem legible_of_mem_ofLine {line : String} (mem : t ∈ ofLine line) (clear : t.isClear = true) :
    t.Legible := by
  have lexeme := lexeme_of_mem_ofLine mem
  have word (is : t.isWord = true) := isOperand_of_wordText (lexeme.wordText is)
  obtain ⟨-, rest, -, -, reads⟩ := (laid_ofLine line).reads t mem
  refine ⟨fun c inside => isBlank_of_isGap (isGap_of_mem_ofLine mem c inside), word, ?_⟩
  intro σ mode before after
  cases reads with
  | longest matched => exact legible_of_matches matched clear word σ mode before after
  | unclosed unknown => simpa [isClear, spelling, unknown, TokenKind.isBetween] using clear

end Token

def Symbols.Contained (σ : Symbols) : Prop :=
  ∀ entry ∈ σ.bounds, ∀ bound ∈ entry.2, Cpp.Contained bound

namespace Cpp

open Token

def BeginsOperand (text : String) : Prop :=
  ∃ gap core, (∀ c ∈ gap, isBlank c = true) ∧ text = String.ofList gap ++ core ∧ IsOperand core

namespace BeginsOperand

variable {text : String}

theorem contained (begins : BeginsOperand text) : Contained text := by
  obtain ⟨gap, core, white, rfl, operand⟩ := begins
  exact (contained_blanks white).append operand.1

theorem append {a b : String} (begins : BeginsOperand a) (contained : Contained b) :
    BeginsOperand (a ++ b) := by
  obtain ⟨gap, core, white, rfl, operand⟩ := begins
  exact ⟨gap, core ++ b, white, String.append_assoc .., operand.1.append contained,
    operand.2.append _⟩

theorem slash (begins : BeginsOperand text) : Contained ("/" ++ text) := by
  obtain ⟨gap, core, white, rfl, operand⟩ := begins
  exact contained_slash white operand.1 operand.2

theorem trim (begins : BeginsOperand text) : IsOperand (Text.trim text) := by
  refine ⟨begins.contained.trim, ?_⟩
  obtain ⟨gap, core, white, rfl, operand⟩ := begins
  have same : Text.trim (String.ofList gap ++ core) = Text.trim core := by
    rw [Text.trim, Text.trim, String.toList_append, String.toList_ofList, dropBlanks,
      List.dropWhile_append_of_pos white]
    rfl
  rw [same]
  exact operand.2.trim

end BeginsOperand

variable {t : Token} {ts : List Token} {σ : Symbols}

theorem gapText_eq (before : List Token) (legible : t.Legible) :
    ∃ gap, (∀ c ∈ gap, isBlank c = true) ∧ gapText before t = String.ofList gap := by
  unfold gapText
  split
  · exact ⟨[], by simp, rfl⟩
  · split
    · exact ⟨[], by simp, rfl⟩
    · exact ⟨t.gap.toList, legible.white, String.ofList_toList.symm⟩

variable {text : String}

theorem begins_gapText (before : List Token) (legible : t.Legible) (operand : IsOperand text) :
    BeginsOperand (gapText before t ++ text) := by
  obtain ⟨gap, white, eq⟩ := gapText_eq before legible
  exact ⟨gap, text, white, by rw [eq], operand⟩

def IsClearText (ts : List Token) (text : String) : Prop :=
  Contained text ∧ ∀ t ∈ ts.head?, t.kind.isBetween = false → BeginsOperand text

theorem BeginsOperand.isClearText (begins : BeginsOperand text) (ts : List Token) :
    IsClearText ts text :=
  ⟨begins.contained, fun _ _ _ => begins⟩

theorem IsClearText.begins (clear : IsClearText ts text) (paired : paired .opening ts = true)
    (filled : ts ≠ []) : BeginsOperand text := by
  cases ts with
  | nil => exact absurd rfl filled
  | cons t rest =>
    obtain ⟨admitted, -⟩ := Bool.and_eq_true_iff.1 paired
    exact clear.2 t rfl (by simpa [Edge.admits] using admitted)

theorem contained_operator {operator : String} (spelled : operator ∈ ["/", "*", ","])
    (all : paired .operator ts = true) (clear : IsClearText ts text) :
    Contained (operator ++ text) := by
  obtain ⟨opening, filled⟩ := paired_opening all
  have begins := clear.begins opening filled
  simp only [List.mem_cons, List.not_mem_nil, or_false] at spelled
  rcases spelled with rfl | rfl | rfl
  · exact begins.slash
  · exact Contained.append (by decide) clear.1
  · exact Contained.append (by decide) clear.1

theorem contained_write (bounds : σ.Contained) (mode : Mode) (before ts : List Token)
    (last : Edge) (legible : ∀ t ∈ ts, t.Legible) (all : paired last ts = true) :
    IsClearText ts (write σ mode before ts) := by
  fun_induction write σ mode before ts generalizing last with
  | case1 => exact ⟨contained_empty, by simp⟩
  | case2 mode before t =>
    have here := legible t List.mem_cons_self
    exact (begins_gapText before here (by decide)).isClearText _
  | case3 mode before t gap new object after word inside close tail list inner later =>
    obtain ⟨here, follow⟩ := List.forall_mem_cons.1 legible
    obtain ⟨named, follow⟩ := List.forall_mem_cons.1 follow
    obtain ⟨legibleInside, legibleTail⟩ := all_argumentList? follow list
    simp only [paired, Bool.and_eq_true] at all
    obtain ⟨pairedInside, pairedTail⟩ := paired_argumentList? all.2.2 list
    have inside := (inner _ legibleInside pairedInside).1
    have tail := (later _ legibleTail pairedTail).1
    refine BeginsOperand.isClearText ?_ _
    refine (((((begins_gapText before here (by decide)).append (named.named word).1).append
      ?_).append inside.trim).append ?_).append tail
    all_goals decide
  | case4 mode before t gap new object after word list later =>
    obtain ⟨here, follow⟩ := List.forall_mem_cons.1 legible
    obtain ⟨named, follow⟩ := List.forall_mem_cons.1 follow
    simp only [paired, Bool.and_eq_true] at all
    have tail := (later _ follow all.2.2).1
    refine BeginsOperand.isClearText ?_ _
    refine (((begins_gapText before here (by decide)).append (named.named word).1).append ?_).append
      tail
    decide
  | case5 mode before t gap new object after word later =>
    obtain ⟨here, follow⟩ := List.forall_mem_cons.1 legible
    rw [paired, Bool.and_eq_true] at all
    have tail := (later _ follow all.2).1
    exact ((begins_gapText before here (by decide)).append tail).isClearText _
  | case6 mode before t rest gap new word isMember list later =>
    obtain ⟨here, follow⟩ := List.forall_mem_cons.1 legible
    rw [paired, Bool.and_eq_true] at all
    have tail := (later _ follow all.2).1
    have named := here.named (Bool.and_eq_true_iff.1 word).1
    have name : IsOperand (if isMember then t.text else bareName σ t.text) := by
      split
      · exact named
      · exact isOperand_bareName σ named
    exact ((begins_gapText before here name).append tail).isClearText _
  | case7 mode before t rest gap new word isMember inside close tail list text inner values later =>
    obtain ⟨here, follow⟩ := List.forall_mem_cons.1 legible
    obtain ⟨legibleInside, legibleTail⟩ := all_argumentList? follow list
    rw [paired, Bool.and_eq_true] at all
    obtain ⟨pairedInside, pairedTail⟩ := paired_argumentList? all.2 list
    have named := here.named (Bool.and_eq_true_iff.1 word).1
    have whole := (inner _ legibleInside pairedInside).1
    have behind := (later _ legibleTail pairedTail).1
    -- each argument is written by itself
    have each (i : Nat) (piece : { piece // piece ∈ splitArguments inside }) :
        IsOperand (trim (write σ (if _ : (mode == .target) = true then .value
          else argumentMode (lower t.text) (splitArguments inside).length i) [] piece.1)) := by
      obtain ⟨pairedPiece, full⟩ := paired_splitArguments pairedInside piece.1 piece.2
      refine ((values i piece _ (fun u within => ?_) pairedPiece).begins pairedPiece full).trim
      exact legibleInside u (mem_of_mem_splitArguments piece.2 within)
    have call : IsOperand text := by
      unfold text
      split
      · refine ⟨((named.1.append ?_).append whole.trim).append ?_,
          ((named.2.append _).append _).append _⟩
        all_goals decide
      · split
        · rename_i target
          simp only [dif_pos target] at each
          refine clearSpelling.indexed (fun _ => named) (fun v mem _ => ?_) []
          obtain ⟨i, within, rfl⟩ := List.mem_mapIdx.1 mem
          exact each i _
        · rename_i target
          simp only [dif_neg target] at each
          refine clearSpelling.namedCall (fun e mem b here _ => bounds e mem b here)
            (fun _ => named) (fun v mem _ => ?_) []
          obtain ⟨i, within, rfl⟩ := List.mem_mapIdx.1 mem
          exact each i _
    exact ((begins_gapText before here call).append behind).isClearText _
  | case8 mode before t rest gap new word later =>
    obtain ⟨here, follow⟩ := List.forall_mem_cons.1 legible
    rw [paired, Bool.and_eq_true] at all
    have clear := later _ follow all.2
    have spelled := here.spelled σ mode before rest
    split at spelled
    · rename_i between
      have edge : Edge.of t = .operator := by rw [Edge.of, if_pos between]
      rw [edge] at all
      refine ⟨?_, by simp [between]⟩
      obtain ⟨space, white, eq⟩ := gapText_eq before here
      rw [show gap = String.ofList space from eq, String.append_assoc]
      exact (contained_blanks white).append (contained_operator spelled all.2 clear)
    · exact ((begins_gapText before here spelled).append clear.1).isClearText _

def isClear (text : String) : Bool :=
  (ofLine text).all Token.isClear && paired .opening (ofLine text)

theorem contained_expression (bounds : σ.Contained) (mode : Mode) (clear : isClear text = true) :
    Contained (expression σ mode text) := by
  obtain ⟨tokens, all⟩ := Bool.and_eq_true_iff.1 clear
  refine (contained_write bounds mode [] _ .opening (fun t mem => ?_) all).1.trim
  exact legible_of_mem_ofLine mem (List.all_eq_true.1 tokens t mem)

end Cpp

end BasicSketch
