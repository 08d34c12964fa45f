import BasicSketch.Proofs.ClearExpression
import BasicSketch.Proofs.ParenGroups

set_option autoImplicit false

/-! Expressions keep their brackets. -/

namespace BasicSketch

open Text Cpp

namespace Token

/-- Whether the token opens or closes a bracket, and which character closes that bracket. -/
def bracket? (t : Token) : Option (Bool × Char) :=
  match t.kind with
  | .symbol .leftParen => some (true, ')')
  | .symbol .leftBracket => some (true, ']')
  | .symbol .leftBrace => some (true, '\x7d')
  | .symbol .rightParen => some (false, ')')
  | .symbol .rightBracket => some (false, ']')
  | .symbol .rightBrace => some (false, '\x7d')
  | _ => none

def nest (stack : List Char) (t : Token) : Option (List Char) :=
  match t.bracket? with
  | none => some stack
  | some (true, c) => some (c :: stack)
  | some (false, c) => if stack.head? = some c then some stack.tail else none

/-- A string that is never closed, or an apostrophe outside of all strings. -/
def isStray (t : Token) : Bool :=
  t.kind == .unknown && t.text.toList.head?.any fun c => c == '\x22' || c == '\x27'

variable {t close : Token} {ts inside rest : List Token} {s i j : List Char} {depth : Nat}

theorem depthAcross_length (step : nest s t = some j) :
    depthAcross s.length t = j.length := by
  unfold nest bracket? at step
  unfold depthAcross nesting
  split at step
  · rename_i flat
    cases step
    split at flat <;> simp_all
  · rename_i opens
    cases step
    split at opens <;> simp_all
  · rename_i closes
    split at step
    · rename_i top
      obtain ⟨below, rfl⟩ := List.head?_eq_some_iff.1 top
      cases step
      split at closes <;> simp_all
    · cases step

theorem isOpening_eq : isOpening t = (t.bracket? == some (true, ')')) := by
  unfold isOpening bracket?
  generalize t.kind = kind
  split <;> first | rfl | simp_all

theorem isClosing_eq : isClosing t = (t.bracket? == some (false, ')')) := by
  unfold isClosing bracket?
  generalize t.kind = kind
  split <;> first | rfl | simp_all

theorem nest_below (step : nest (s ++ ')' :: i) t = some j)
    (inner : ¬(s.count ')' = 0 ∧ isClosing t = true)) :
    ∃ s', nest s t = some s' ∧ s' ++ ')' :: i = j ∧ s'.count ')' = depthBehind (s.count ')') t := by
  unfold depthBehind
  rw [isClosing_eq] at inner ⊢
  rw [isOpening_eq]
  unfold nest at step ⊢
  generalize t.bracket? = bracket at *
  rcases bracket with - | ⟨- | -, c⟩ <;> dsimp only at step ⊢
  · cases step
    exact ⟨s, rfl, rfl, rfl⟩
  · split at step
    · rename_i top
      cases step
      cases s with
      | nil =>
        cases top
        simp at inner
      | cons d below =>
        cases top
        refine ⟨below, if_pos rfl, rfl, ?_⟩
        by_cases paren : c = ')' <;> simp [paren]
    · cases step
  · cases step
    refine ⟨c :: s, rfl, rfl, ?_⟩
    by_cases paren : c = ')' <;> simp [paren]

theorem nest_closeParen? (found : closeParen? depth ts = some (inside, close, rest))
    (count : s.count ')' = depth) (nested : ts.foldlM nest (s ++ ')' :: i) = some j) :
    inside.foldlM nest s = some [] ∧ rest.foldlM nest i = some j := by
  induction ts generalizing depth inside s with
  | nil => cases found
  | cons t more ih =>
    obtain ⟨stack, step, nested⟩ := Option.bind_eq_some_iff.1 (List.foldlM_cons.symm.trans nested)
    rw [closeParen?_cons] at found
    split at found
    · rename_i last
      subst count
      have kind : t.bracket? = some (false, ')') := by rw [bracket?, beq_iff_eq.1 last.2]
      cases found
      rw [nest, kind] at step
      dsimp only at step
      split at step
      · rename_i top
        cases s with
        | nil =>
          cases step
          exact ⟨rfl, nested⟩
        | cons c below =>
          cases top
          simp at last
      · cases step
    · rename_i inner
      subst count
      obtain ⟨⟨before, _, _⟩, later, ⟨⟩⟩ := Option.map_eq_some_iff.1 found
      obtain ⟨s', above, rfl, count⟩ := nest_below step inner
      obtain ⟨within, behind⟩ := ih later count nested
      exact ⟨List.foldlM_cons.trans (Option.bind_eq_some_iff.2 ⟨s', above, within⟩), behind⟩

theorem nest_argumentList? (found : argumentList? ts = some (inside, close, rest))
    (nested : ts.foldlM nest i = some j) :
    inside.foldlM nest [] = some [] ∧ rest.foldlM nest i = some j := by
  cases ts with
  | nil => cases found
  | cons t more =>
    simp only [argumentList?] at found
    split at found
    · rename_i opens
      have kind : t.bracket? = some (true, ')') := by rw [bracket?, beq_iff_eq.1 opens]
      rw [List.foldlM_cons, nest, kind] at nested
      exact nest_closeParen? found rfl nested
    · cases found

theorem nest_splitPieces (nested : ts.foldlM nest s = some []) :
    ∃ first more, splitPieces s.length ts = first :: more ∧ first.foldlM nest s = some [] ∧
      ∀ p ∈ more, p.foldlM nest [] = some [] := by
  induction ts generalizing s with
  | nil =>
    cases nested
    exact ⟨[], [], rfl, rfl, by simp⟩
  | cons t rest ih =>
    obtain ⟨s', step, nested⟩ := Option.bind_eq_some_iff.1 (List.foldlM_cons.symm.trans nested)
    obtain ⟨first, more, eq, start, others⟩ := ih nested
    rw [splitPieces]
    split
    · rename_i comma
      simp only [Bool.and_eq_true, beq_iff_eq, Int.natCast_eq_zero,
        List.length_eq_zero_iff] at comma
      obtain ⟨rfl, kind⟩ := comma
      rw [nest, bracket?, kind] at step
      cases step
      exact ⟨[], _, rfl, rfl, eq ▸ List.forall_mem_cons.2 ⟨start, others⟩⟩
    · rw [depthAcross_length step, eq]
      exact ⟨t :: first, more, rfl,
        List.foldlM_cons.trans (Option.bind_eq_some_iff.2 ⟨s', step, start⟩), others⟩

variable {text line : String}

theorem walks_chars (chars : ∀ c ∈ text.toList, isNameChar c = true ∨ c ∈ ['.', '+', '-', '$']) :
    Walks i i text := by
  refine walks_plain fun c mem => ?_
  have listed : (isNameChar c || ['.', '+', '-', '$'].contains c) = true := by
    simpa using chars c mem
  exact not_isDelimiter (p := fun c => isNameChar c || ['.', '+', '-', '$'].contains c) listed rfl

theorem walks_text (matched : TokenKind.text.pattern.Matches text.toList) : Walks i i text := by
  have quoted (cs : List Char) (inside : ∀ c ∈ cs, (c != '\x22') = true) :
      cs.foldlM Spot.step (.quoted, i) = some (.quoted, i) := by
    induction cs with
    | nil => rfl
    | cons c rest ih =>
      obtain ⟨here, others⟩ := List.forall_mem_cons.1 inside
      rw [List.foldlM_cons, Spot.step, if_neg (by simpa using here)]
      exact ih others
  obtain ⟨c, rest, whole, opens, rest⟩ := Pattern.matches_one_seq.1 matched
  obtain ⟨chars, last, rfl, inside, closes⟩ := Pattern.matches_seq.1 rest
  obtain ⟨d, rfl, ends⟩ := Pattern.matches_one.1 closes
  obtain rfl := beq_iff_eq.1 opens
  obtain rfl := beq_iff_eq.1 ends
  have inner := quoted chars (Pattern.matches_many_one.1 inside)
  rw [Walks, whole, List.foldlM_cons]
  change (chars ++ ['\x22']).foldlM Spot.step (.quoted, i) = _
  rw [List.foldlM_append, inner]
  rfl

theorem walks_symbol {symbol : Symbol} (kind : t.kind = .symbol symbol)
    (text : t.text = symbol.text) (step : nest i t = some j) (σ : Symbols) (mode : Mode)
    (before after : List Token) : Walks i j (spelling σ mode before t after) := by
  unfold nest bracket? at step
  unfold spelling
  cases symbol
  all_goals
    simp only [kind, text, Symbol.text] at step ⊢
    repeat' split at step
    all_goals cases step
    all_goals repeat' split
    all_goals first
      | exact walks_literal (by decide)
      | simp_all [Walks, Spot.step]

theorem walks_unknown {rest : List Char} (kind : t.kind = .unknown)
    (reads : Reads t.kind t.text.toList rest) (plain : t.isStray = false) : Walks i i t.text := by
  rw [isStray, kind, beq_self_eq_true, Bool.true_and] at plain
  rw [kind] at reads
  cases reads with
  | unclosed _ _ quote =>
    obtain ⟨tail, eq, -⟩ := quote
    simp [eq] at plain
  | longest matched _ preferred =>
    obtain ⟨c, eq, other⟩ := Pattern.matches_one.1 matched
    -- a bracket is a symbol before it is an unknown character
    have apart (s : Symbol) : s.text.toList ≠ [c] := fun same =>
      (preferred (.symbol s) (matches_symbol.2 (eq.trans same.symm))).elim nofun nofun
    refine walks_plain fun d mem => ?_
    obtain rfl : d = c := by simpa [eq] using mem
    cases mark : isDelimiter d with
    | false => rfl
    | true =>
      have listed := List.contains_iff_mem.1 mark
      simp only [delimiters, List.mem_cons, List.not_mem_nil, or_false] at listed
      rcases listed with rfl | rfl | rfl | rfl | rfl | rfl | rfl | rfl
      · simp at other
      · simp [eq] at plain
      · exact absurd rfl (apart .leftParen)
      · exact absurd rfl (apart .rightParen)
      · exact absurd rfl (apart .leftBracket)
      · exact absurd rfl (apart .rightBracket)
      · exact absurd rfl (apart .leftBrace)
      · exact absurd rfl (apart .rightBrace)

theorem walks_other (mem : t ∈ ofLine line) (plain : t.isStray = false)
    (other : ∀ s, t.kind ≠ .symbol s) (σ : Symbols) (mode : Mode) (before after : List Token) :
    Walks i i (spelling σ mode before t after) := by
  have lexeme := lexeme_of_mem_ofLine mem
  have word (is : t.isWord = true) : Walks i i t.text := walks_chars fun c here =>
    (lexeme.wordText is).chars c here |>.imp_right (by simp [·])
  obtain ⟨-, rest, -, -, reads⟩ := (laid_ofLine line).reads t mem
  have matched (known : t.kind ≠ .unknown) : t.kind.pattern.Matches t.text.toList := by
    cases reads with
    | longest matched => exact matched
    | unclosed unknown => exact absurd unknown known
  cases kind : t.kind with
  | symbol s => exact absurd kind (other s)
  | keyword k =>
    have named := word (by rw [isWord, kind]; rfl)
    unfold spelling
    cases k
    all_goals
      simp only [kind]
      first | exact named | exact walks_literal (by decide)
  | identifier => simpa [spelling, kind] using word (by rw [isWord, kind]; rfl)
  | unknown => simpa [spelling, kind] using walks_unknown kind reads plain
  | integer =>
    rw [kind] at lexeme
    simpa [spelling, kind] using walks_plain fun c here => not_isDelimiter (lexeme.2 c here) rfl
  | text =>
    rw [kind] at matched
    simpa [spelling, kind] using walks_text (matched (by simp))
  | float =>
    rw [kind] at matched
    simpa [spelling, kind] using walks_chars fun c here =>
      (float_chars (matched (by simp)) c here).imp_right (List.mem_append_left ['$'])
  | hex | octal | binary =>
    rw [kind] at matched
    obtain ⟨b, d, eq, -, -, digits⟩ := matches_based.1 (matched (by simp))
    simp only [spelling, kind, eq]
    refine (walks_literal (by decide)).append (walks_plain fun c mem => ?_)
    exact not_isDelimiter (digits c (by simpa using mem)) rfl

theorem walks_spelling (mem : t ∈ ofLine line) (plain : t.isStray = false)
    (step : nest i t = some j) (σ : Symbols) (mode : Mode) (before after : List Token) :
    Walks i j (spelling σ mode before t after) := by
  cases kind : t.kind with
  | symbol symbol =>
    have lexeme := lexeme_of_mem_ofLine mem
    rw [kind] at lexeme
    exact walks_symbol kind (String.toList_inj.1 lexeme) step σ mode before after
  | _ =>
    rw [nest, bracket?, kind] at step
    cases step
    exact walks_other mem plain (by simp [kind]) σ mode before after

end Token

namespace Cpp

open Token

theorem nested_fillText {fill : String} (nested : Whole Walks fill) :
    Whole Walks (fillText fill) := by
  unfold fillText
  split
  · split
    · exact nested
    · exact fun _ => by rw [Walks, String.toList_ofList]; rfl
  · exact nested

theorem nestedSpelling : Spelling Walks Walks where
  follows := id
  leads walks _ := walks
  append := Walks.append
  join := Walks.append
  fixed _ _ walks := walks
  fill := nested_fillText

theorem fixedTexts_nested : ∀ text ∈ fixedTexts, Nested text := by decide

def NestedBounds (σ : Symbols) : Prop := ∀ entry ∈ σ.bounds, ∀ bound ∈ entry.2, Nested bound

instance (σ : Symbols) : Decidable (NestedBounds σ) := inferInstanceAs (Decidable (∀ _ ∈ _, _))

theorem nestedTokens {σ : Symbols} (bounds : NestedBounds σ) :
    Tokenwise σ Walks fun i j ts => ts.foldlM nest i = some j ∧
      ∀ t ∈ ts, t.isStray = false ∧ ∃ line, t ∈ ofLine line where
  toSpelling := nestedSpelling
  trimmed nested _ := Nested.walks (Walks.trim nested)
  bounds entry mem bound here _ := (bounds entry mem bound here).walks
  nil all := Option.some.inj all.1
  gap := by
    rintro i j t rest ⟨-, tokens⟩ k
    obtain ⟨-, line, mem⟩ := tokens t List.mem_cons_self
    exact walks_plain fun c here =>
      not_isDelimiter (isBlank_of_isGap (isGap_of_mem_ofLine mem c here)) rfl
  word := by
    rintro i j t rest ⟨nested, tokens⟩ word
    obtain ⟨⟨-, line, mem⟩, others⟩ := List.forall_mem_cons.1 tokens
    have named : Whole Walks t.text := fun _ => walks_chars fun c here =>
      ((lexeme_of_mem_ofLine mem).wordText word).chars c here |>.imp_right (by simp [·])
    have flat : t.bracket? = none := by
      unfold bracket?
      split <;> simp_all [isWord, TokenKind.isWord]
    rw [List.foldlM_cons, nest, flat] at nested
    refine ⟨⟨nested, others⟩, named, ?_⟩
    rcases bareName_eq σ t.text with same | fixed
    · rwa [same]
    · exact fun _ => (fixedTexts_nested _ fixed).walks
  spelled := by
    rintro i k t rest ⟨nested, tokens⟩
    obtain ⟨⟨plain, line, mem⟩, others⟩ := List.forall_mem_cons.1 tokens
    obtain ⟨j, step, nested⟩ := Option.bind_eq_some_iff.1 (List.foldlM_cons.symm.trans nested)
    exact ⟨j, ⟨nested, others⟩, walks_spelling mem plain step σ⟩
  list all found :=
    have ⟨inside, rest⟩ := nest_argumentList? found all.1
    have ⟨first, second⟩ := all_argumentList? all.2 found
    ⟨⟨inside, first⟩, rest, second⟩
  piece := by
    rintro ts piece ⟨nested, tokens⟩ mem
    refine ⟨?_, fun t within => tokens t (mem_of_mem_splitArguments mem within)⟩
    unfold splitArguments at mem
    split at mem
    · simp at mem
    · obtain ⟨first, more, eq, start, others⟩ := nest_splitPieces nested
      rw [show splitPieces 0 ts = first :: more from eq] at mem
      rcases List.mem_cons.1 mem with rfl | later
      · exact start
      · exact others _ later

/-- Expressions keep their brackets: no bracket is lost, added or closed by one of another kind. -/
theorem expression_nested {σ : Symbols} (bounds : NestedBounds σ) (mode : Mode) {text : String}
    (nested : (ofLine text).foldlM nest [] = some [])
    (closed : ∀ t ∈ ofLine text, t.isStray = false) : Nested (expression σ mode text) :=
  Walks.trim ((nestedTokens bounds).write mode [] _ [] []
    ⟨nested, fun t mem => ⟨closed t mem, text, mem⟩⟩)

theorem expression_nested_fill :
    NestedBounds ⟨[], [], [("a", ["f[n] + (1)"])], 0, none, false⟩ ∧
      (ofLine "m[String(UBound(a), \x22)\x22)] + \x7b b \x7d").foldlM nest [] = some [] ∧
      (∀ t ∈ ofLine "m[String(UBound(a), \x22)\x22)] + \x7b b \x7d", t.isStray = false) ∧
      Nested (expression ⟨[], [], [("a", ["f[n] + (1)"])], 0, none, false⟩ .value
        "m[String(UBound(a), \x22)\x22)] + \x7b b \x7d") :=
  ⟨by decide +kernel, by decide +kernel, by decide +kernel,
    expression_nested (by decide +kernel) .value (by decide +kernel) (by decide +kernel)⟩

end Cpp

end BasicSketch
