import BasicSketch.Proofs.DeedLines
import BasicSketch.Proofs.LineCuts

set_option autoImplicit false

/-!
Lines that are put together from texts. A text that begins and ends with a token and leaves no
quote open keeps its tokens wherever it stands in a line, as long as a blank, a parenthesis or a
comma comes behind it. What is then read at top level is what was put in.
-/

namespace BasicSketch

namespace Token

open Text (dropBlanks isBlank isNameChar trim)

/-- No token but a quoted text goes on over such a character. -/
def breaks : List Char := [' ', '\t', '\r', '\n', '\x0c', '(', ')', ',']

/-- A quote that is opened and never closed. -/
def isUnclosed (t : Token) : Bool := t.kind == .unknown && t.text.toList.head? == some '"'

variable {kind : TokenKind} {c : Char} {w text rest after gap cs : List Char} {start : Nat}

theorem text_or_single (matched : kind.pattern.Matches w) (mem : c ∈ w) (stops : c ∈ breaks) :
    kind = .text ∨ w.length = 1 := by
  have avoiding (avoids : kind.pattern.avoids breaks = true) : kind = .text ∨ w.length = 1 :=
    absurd stops (Pattern.not_mem_of_avoids avoids matched c mem)
  cases kind with
  | text => exact .inl rfl
  | unknown => exact .inr (length_of_matches_unknown matched)
  | integer | float | hex | octal | binary | identifier => exact avoiding (by decide)
  | keyword k =>
    have letter := (keyword_chars matched).2 c mem
    have others : ∀ d ∈ breaks, d.isAlpha = false := by simp [breaks]
    rw [others c stops] at letter
    cases letter
  | symbol s =>
    obtain rfl := matches_symbol.1 matched
    rcases symbol_text s with one | ⟨pair, listed, eq⟩
    · exact .inr one
    · have others : ∀ pair ∈ pairs, pair.1 ∉ breaks ∧ pair.2 ∉ breaks := by decide
      obtain ⟨first, second⟩ := others pair listed
      rw [eq, List.mem_cons, List.mem_singleton] at mem
      rcases mem with rfl | rfl
      · exact absurd stops first
      · exact absurd stops second

/-- A quoted text ends at the first quote. -/
theorem length_le_of_quoted {quoted : List Char} (closed : TokenKind.text.pattern.Matches text)
    (longer : TokenKind.text.pattern.Matches quoted) (begins : quoted <+: text ++ rest) :
    quoted.length ≤ text.length := by
  refine Nat.le_of_not_lt fun long => ?_
  -- a longer one would have the closing quote of the shorter one inside
  obtain ⟨a, rfl, -⟩ := matches_text.1 closed
  obtain ⟨b, rfl, free⟩ := matches_text.1 longer
  have first : '"' :: (a ++ ['"']) <+: '"' :: (a ++ ['"']) ++ rest := List.prefix_append ..
  have second : '"' :: b <+: '"' :: (a ++ ['"']) ++ rest :=
    (List.prefix_append ('"' :: b) ['"']).trans begins
  have inside := List.prefix_of_prefix_length_le first second
    (by simpa [Nat.succ_le_iff] using long)
  exact free ((List.cons_prefix_cons.1 inside).2.subset (by simp))

theorem Reads.followed (reads : Reads kind text rest)
    (closed : kind = .unknown → text.head? ≠ some '"') (stops : c ∈ breaks) (after : List Char) :
    Reads kind text (rest ++ c :: after) := by
  cases reads with
  | unclosed unknown _ quote =>
    obtain ⟨tail, rfl, -⟩ := quote
    exact absurd rfl (closed unknown)
  | longest matched longest preferred =>
    refine .longest matched (fun other longer begins matched' => ?_) preferred
    by_cases short : longer.length ≤ (text ++ rest).length
    · have whole : text ++ rest <+: text ++ (rest ++ c :: after) := by simp
      exact longest other longer (List.prefix_of_prefix_length_le begins whole short) matched'
    · -- the match goes on over the break
      have mem : c ∈ longer := by
        obtain ⟨n, eq⟩ := Nat.exists_eq_add_of_lt (Nat.lt_of_not_le short)
        rw [List.prefix_iff_eq_take.1 begins, eq, ← List.append_assoc, Nat.add_assoc,
          List.take_length_add_append, List.take_succ_cons]
        simp
      obtain ⟨d, more, rfl, starts⟩ := starts_of_matches matched
      rcases text_or_single matched' mem stops with rfl | single
      · have quote : d = '"' := (starts_of_begins matched' begins).symm ▸ rfl
        subst quote
        obtain rfl := quote_of_starts starts
        exact length_le_of_quoted matched matched' begins
      · rw [single, List.length_cons]
        exact Nat.le_add_left 1 more.length

variable {ts us : List Token}

theorem Laid.followed (laid : Laid start cs ts) (whole : cs = covered ts)
    (closed : ∀ t ∈ ts, t.isUnclosed = false) (stops : ∀ c ∈ rest.head?, c ∈ breaks)
    (following : Laid (start + byteSize cs) rest us) : Laid start (cs ++ rest) (ts ++ us) := by
  -- token by token: each but the last is followed by the same text as before up to `rest`
  induction laid with
  | done =>
    subst whole
    exact following
  | @token start gap text more kind ts white reads later ih =>
    obtain ⟨here, others⟩ := List.forall_mem_cons.1 closed
    have behind : more = covered ts := by simpa using whole
    have size : start + byteSize (gap ++ (text ++ more)) =
        start + byteSize gap + byteSize text + byteSize more := by
      simp only [byteSize_append, Nat.add_assoc]
    rw [size] at following
    have further : Reads kind text (more ++ rest) := by
      cases rest with
      | nil => simpa using reads
      | cons c rest =>
        refine reads.followed (fun unknown quote => ?_) (stops c rfl) rest
        simp [isUnclosed, unknown, quote] at here
    simpa using Laid.token white further (ih behind others following)

/-- A gap in front of the first token. -/
theorem Laid.indent {t : Token} (white : ∀ c ∈ gap, isGap c = true)
    (laid : Laid (start + byteSize gap) cs (t :: ts)) :
    Laid start (gap ++ cs) ({ t with gap := String.ofList gap ++ t.gap } :: ts) := by
  cases laid with
  | @token _ own text rest kind _ white' reads later =>
    have wider : ∀ c ∈ gap ++ own, isGap c = true := List.forall_mem_append.2 ⟨white, white'⟩
    rw [Nat.add_assoc start, ← byteSize_append] at later
    have laid := Laid.token wider reads later
    rw [byteSize_append, ← Nat.add_assoc, String.ofList_append, List.append_assoc] at laid
    exact laid

/-! Texts in a line. -/

/-- The text has a token at both ends and leaves no quote open. -/
structure Whole (text : String) : Prop where
  full : ofLine text ≠ []
  ends : slice (ofLine text) = text
  closed : ∀ t ∈ ofLine text, t.isUnclosed = false

instance (text : String) : Decidable (Whole text) :=
  decidable_of_iff (ofLine text ≠ [] ∧ slice (ofLine text) = text ∧
    ∀ t ∈ ofLine text, t.isUnclosed = false)
    ⟨fun ⟨full, ends, closed⟩ => ⟨full, ends, closed⟩, fun whole => ⟨whole.1, whole.2, whole.3⟩⟩

/-- The tokens are those that the text has by itself. -/
structure Stands (text : String) (ts : List Token) : Prop where
  kinds : ts.map Token.kind = (ofLine text).map Token.kind
  slice : slice ts = text

/-- The tokens of a text, wherever it begins, are as `P` says. -/
def Lays (cs : List Char) (P : List Token → Prop) : Prop := ∀ start, ∃ ts, Laid start cs ts ∧ P ts

theorem Lays.tokens {line : String} {P : List Token → Prop} (lays : Lays line.toList P) :
    P (ofLine line) := by
  obtain ⟨ts, laid, holds⟩ := lays 0
  rwa [(laid_ofLine line).unique laid rfl]

theorem lays_end : Lays [] (· = []) := fun start => ⟨[], .ended start, rfl⟩

theorem slice_later (distance : Nat) (ts : List Token) :
    slice (ts.map (later distance)) = slice ts := by
  cases ts with
  | nil => rfl
  | cons t ts =>
    apply String.toList_injective
    rw [List.map_cons, toList_slice, toList_slice]
    simp [covered, List.flatMap_map, later]

theorem Lays.piece {text : String} {P : List Token → Prop} (whole : Whole text)
    (white : ∀ c ∈ gap, isGap c = true) (stops : ∀ c ∈ rest.head?, c ∈ breaks)
    (following : Lays rest P) :
    Lays (gap ++ (text.toList ++ rest)) fun ts =>
      ∃ us vs, ts = us ++ vs ∧ Stands text us ∧ P vs := by
  intro start
  obtain ⟨vs, laid, holds⟩ := following (start + byteSize gap + byteSize text.toList)
  obtain ⟨t, ts, eq⟩ := List.exists_cons_of_ne_nil whole.full
  -- nothing but tokens: their slice is all of the text
  have covers : text.toList = covered (ofLine text) := by
    obtain ⟨tail, split, -⟩ := (laid_ofLine text).rest
    have same := congrArg String.toList whole.ends
    rw [eq, toList_slice] at same
    have size := congrArg List.length (same.trans split)
    rw [eq] at split
    simp only [covered_cons, List.length_append, eq] at size
    rw [eq, split, List.eq_nil_of_length_eq_zero (l := tail) (by omega), List.append_nil]
  have moved := (laid_ofLine text).later (start + byteSize gap)
  rw [Nat.add_zero] at moved
  have closed : ∀ u ∈ (ofLine text).map (later (start + byteSize gap)),
      u.isUnclosed = false := by
    simpa [isUnclosed, later] using whole.closed
  have joined := moved.followed (by rw [covers]; simp [covered, List.flatMap_map, later]) closed
    stops laid
  rw [eq, List.map_cons, List.cons_append] at joined
  refine ⟨_, joined.indent white, _ :: ts.map (later (start + byteSize gap)), vs, rfl, ⟨?_, ?_⟩,
    holds⟩
  · simp [eq]
  · have same := slice_later (start + byteSize gap) (t :: ts)
    rw [← eq, whole.ends, eq, List.map_cons] at same
    exact same

theorem Lays.leftParen {P : List Token → Prop} (following : Lays rest P) :
    Lays ('(' :: rest) fun ts => ∃ t vs, ts = t :: vs ∧ t.kind = .symbol .leftParen ∧ P vs := by
  intro start
  obtain ⟨vs, laid, holds⟩ := following (start + byteSize ['('])
  exact ⟨_, .bare start (reads_of_scan (by decide) rfl) laid, _, vs, rfl, rfl, holds⟩

theorem isGap_none : ∀ c ∈ [], isGap c = true := nofun

theorem isGap_blank : ∀ c ∈ [' '], isGap c = true := List.all_eq_true.1 (by decide)

theorem breaks_blank (cs : List Char) : ∀ c ∈ ([' '] ++ cs).head?, c ∈ breaks := by
  rintro c ⟨⟩
  decide

/-! Top level. -/

/-- No token outside of all brackets satisfies `stop`. -/
def TopFree (stop : TokenKind → Bool) (ts : List Token) : Prop :=
  ∀ before t after, ts = before ++ t :: after → Balanced before → stop t.kind = false

variable {stop : TokenKind → Bool} {depth : Nat}

theorem topFree_iff : TopFree stop ts ↔
    ∀ i, (inside : i < ts.length) → Balanced (ts.take i) → stop ts[i].kind = false := by
  constructor
  · intro free i inside balanced
    exact free _ _ _ (by rw [List.getElem_cons_drop, List.take_append_drop]) balanced
  · rintro free before t after rfl balanced
    simpa using free before.length (by simp) (by simpa using balanced)

instance : Decidable (TopFree stop ts) := decidable_of_iff _ topFree_iff.symm

theorem balanced_congr (kinds : ts.map Token.kind = us.map Token.kind) :
    Balanced ts ↔ Balanced us := by
  have nestings (ts : List Token) :
      ts.map nesting = (ts.map Token.kind).map fun kind => nesting ⟨kind, "", "", 0⟩ := by
    simp [nesting]
  rw [Balanced, Balanced, nestings, kinds, ← nestings]

theorem TopFree.congr (free : TopFree stop ts) (kinds : us.map Token.kind = ts.map Token.kind) :
    TopFree stop us := by
  rintro before t after rfl balanced
  obtain ⟨before', rest, rfl, same, behind⟩ :=
    List.map_eq_append_iff.1 (kinds.symm.trans List.map_append)
  obtain ⟨t', after', rfl, kind, -⟩ := List.map_eq_cons_iff.1 behind
  exact kind ▸ free before' t' after' rfl ((balanced_congr same).2 balanced)

theorem splitAtTop_append_of_free (balanced : depth? depth (ts.map nesting) = some 0)
    (free : ∀ before t after, ts = before ++ t :: after →
      depth? depth (before.map nesting) = some 0 → stop t.kind = false) (us : List Token) :
    splitAtTop stop depth (ts ++ us) =
      (ts ++ (splitAtTop stop 0 us).1, (splitAtTop stop 0 us).2) := by
  induction ts generalizing depth with
  | nil =>
    obtain rfl : depth = 0 := Option.some.inj balanced
    rfl
  | cons t ts ih =>
    rw [List.map_cons, depth?_cons] at balanced
    have passes : (depth == 0 && stop t.kind) = false := by
      by_cases top : depth = 0
      · rw [free [] t ts rfl (by rw [top]; rfl), Bool.and_false]
      · simp [top]
    have further := ih balanced.2 fun before u after eq reached =>
      free (t :: before) u after (by rw [eq]; rfl) (by
        rw [List.map_cons, depth?_cons]
        exact ⟨balanced.1, reached⟩)
    simp [splitAtTop, passes, further]

theorem TopFree.splitAtTop_append (free : TopFree stop ts) (balanced : Balanced ts)
    (rest : List Token) (stops : ∀ t ∈ rest.head?, stop t.kind = true) :
    splitAtTop stop 0 (ts ++ rest) = (ts, rest) := by
  have ahead : splitAtTop stop 0 rest = ([], rest) := by
    cases rest with
    | nil => rfl
    | cons u rest => simp [splitAtTop, stops u rfl]
  rw [splitAtTop_append_of_free balanced free, ahead, List.append_nil]

theorem depthAfter_succ {t : Token} (inner : t.nesting = .closes → depth ≠ 0) :
    depthAfter (depth + 1) t = depthAfter depth t + 1 := by
  unfold depthAfter
  split <;> rename_i nests
  · rfl
  · have below := inner nests
    omega
  · rfl

/-- Inside of brackets nothing is at top level. -/
theorem splitAtTop_inside {reached : Nat} (stop : TokenKind → Bool)
    (within : depth? depth (ts.map nesting) = some reached) (us : List Token) :
    splitAtTop stop (depth + 1) (ts ++ us) =
      (ts ++ (splitAtTop stop (reached + 1) us).1, (splitAtTop stop (reached + 1) us).2) := by
  induction ts generalizing depth with
  | nil =>
    obtain rfl : depth = reached := Option.some.inj within
    rfl
  | cons t ts ih =>
    rw [List.map_cons, depth?_cons] at within
    simp [splitAtTop, depthAfter_succ within.1, ih within.2]

theorem TopFree.splitAtTop_eq (free : TopFree stop ts) (balanced : Balanced ts) :
    splitAtTop stop 0 ts = (ts, []) := by
  have parts := free.splitAtTop_append balanced [] (by simp)
  rwa [List.append_nil] at parts

theorem closeGroup?_of_balanced {close : Token} (balanced : depth? depth (ts.map nesting) = some 0)
    (closes : close.nesting = .closes) (us : List Token) :
    closeGroup? depth (ts ++ close :: us) = some (ts, close, us) := by
  induction ts generalizing depth with
  | nil =>
    obtain rfl : depth = 0 := Option.some.inj balanced
    simp [closeGroup?, closes]
  | cons t ts ih =>
    rw [List.map_cons, depth?_cons] at balanced
    rw [List.cons_append, closeGroup?, ih balanced.2]
    · rfl
    · exact fun closing top => balanced.1 closing top

theorem exists_closeGroup? (closes : depth? (depth + 1) (ts.map nesting) = some 0) :
    ∃ inside close rest, closeGroup? depth ts = some (inside, close, rest) := by
  induction ts generalizing depth with
  | nil => cases closes
  | cons t ts ih =>
    rw [List.map_cons, depth?_cons] at closes
    by_cases last : t.nesting = .closes ∧ depth = 0
    · obtain ⟨closing, rfl⟩ := last
      exact ⟨[], t, ts, by simp [closeGroup?, closing]⟩
    · have inner : t.nesting = .closes → depth ≠ 0 := fun closing top => last ⟨closing, top⟩
      rw [depthAfter_succ inner] at closes
      obtain ⟨inside, close, rest, found⟩ := ih closes.2
      refine ⟨t :: inside, close, rest, ?_⟩
      rw [closeGroup?, found]
      · rfl
      · exact inner

/-! Expressions and names that a line is made of. -/

/-- A text that can stand for an expression anywhere: it has no blanks around it, is not empty,
its brackets are balanced and no quote is left open. -/
structure Standalone (text : String) : Prop where
  tight : trim text = text
  full : text ≠ ""
  balanced : Balanced (ofLine text)
  closed : ∀ t ∈ ofLine text, t.isUnclosed = false

instance (text : String) : Decidable (Standalone text) :=
  decidable_of_iff (trim text = text ∧ text ≠ "" ∧ Balanced (ofLine text) ∧
    ∀ t ∈ ofLine text, t.isUnclosed = false)
    ⟨fun ⟨tight, full, balanced, closed⟩ => ⟨tight, full, balanced, closed⟩,
      fun whole => ⟨whole.1, whole.2, whole.3, whole.4⟩⟩

theorem Standalone.whole {text : String} (alone : Standalone text) : Whole text where
  full absent := by
    have ends := slice_ofLine alone.tight
    rw [absent] at ends
    exact alone.full ends.symm
  ends := slice_ofLine alone.tight
  closed := alone.closed

/-- The text reads as one identifier. -/
def IsIdentifier (text : String) : Prop :=
  (ofLine text).map (fun t => (t.kind, t.text)) = [(.identifier, text)]

instance (text : String) : Decidable (IsIdentifier text) :=
  inferInstanceAs (Decidable (_ = _))

theorem IsIdentifier.kinds {text : String} (name : IsIdentifier text) :
    (ofLine text).map Token.kind = [.identifier] := by
  have kinds := congrArg (List.map Prod.fst) name
  rwa [List.map_map] at kinds

theorem IsIdentifier.whole {text : String} (name : IsIdentifier text) : Whole text := by
  obtain ⟨t, line, same⟩ := List.map_eq_singleton_iff.1 name
  obtain ⟨kind, text_eq⟩ := Prod.mk.inj same
  refine ⟨by simp [line], ?_, by simp [line, isUnclosed, kind]⟩
  rw [line, ← text_eq]
  exact String.append_empty

theorem Stands.single {text : String} (stands : Stands text ts)
    (reads : (ofLine text).map Token.kind = [kind]) :
    ∃ t, ts = [t] ∧ t.kind = kind ∧ t.text = text := by
  obtain ⟨t, rfl, same⟩ := List.map_eq_singleton_iff.1 (stands.kinds.trans reads)
  exact ⟨t, rfl, same, String.append_empty.symm.trans stands.slice⟩

end Token

/-! Readers on such lines. -/

namespace Reader

open Token

variable {t : Token} {ts : List Token} {kind : TokenKind}

theorem run_accept (kind : TokenKind) (t : Token) (ts : List Token) :
    (accept kind).run (t :: ts) = .ok (t.kind == kind, if t.kind == kind then ts else t :: ts) := by
  cases is : t.kind == kind <;> simp [run, accept, acceptIf, is]

theorem run_name (word : t.isWord = true) (expected : String) :
    (name expected).run (t :: ts) = .ok (t.text, ts) := by
  rw [name, run_bind, run_take, if_pos word]
  rfl

theorem run_expect (is : t.kind = kind) (expected : String) :
    (expect kind expected).run (t :: ts) = .ok ((), ts) := by
  rw [expect, run_bind, run_take, if_pos (by simp [is])]
  rfl

/-- A text that stands in a line is read as the expression that it is by itself. -/
theorem run_exprUntil_stands {text : String} {us : List Token} {stop : TokenKind → Bool}
    (alone : Standalone text) (stands : Stands text ts) (free : TopFree stop (ofLine text))
    (stops : ∀ t ∈ us.head?, stop t.kind = true) (expected : String) :
    (exprUntil expected stop).run (ts ++ us) = .ok (⟨text⟩, us) := by
  have balanced : Balanced ts := (balanced_congr stands.kinds).2 alone.balanced
  have full : ts ≠ [] := by
    rintro rfl
    exact alone.full stands.slice.symm
  rw [run_exprUntil, (free.congr stands.kinds).splitAtTop_append balanced us stops,
    if_neg (by simpa using full), check_of_balanced balanced]
  simp [Expr.ofText, stands.slice, alone.tight]

theorem run_restExpr_stands {text : String} (alone : Standalone text) (stands : Stands text ts)
    (expected : String) : (restExpr expected).run ts = .ok (⟨text⟩, []) := by
  have free : TopFree (fun _ => false) (ofLine text) := fun _ _ _ _ _ => rfl
  have absent : ∀ t ∈ ([] : List Token).head?, (fun _ => false) t.kind = true := by simp
  have read := run_exprUntil_stands alone stands free absent expected
  rwa [List.append_nil] at read

end Reader

end BasicSketch
