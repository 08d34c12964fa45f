import BasicSketch.Proofs.ByteSlice
import BasicSketch.Proofs.LetterCase

set_option autoImplicit false

/-! Parts of a line that are read by themselves. -/

namespace BasicSketch

open Text

namespace Token

/-- Kind, text and span of a token, in a text that begins at the offset `origin`. -/
def seenFrom (origin : Nat) (t : Token) : TokenKind × String × Nat × Nat :=
  (t.kind, t.text, t.start - origin, t.stop - origin)

theorem seenFrom_later (origin : Nat) (t : Token) :
    (t.later origin).seenFrom origin = t.seenFrom 0 := by
  simp only [seenFrom, later, stop, Nat.add_assoc, Nat.add_sub_cancel_left, Nat.sub_zero]

theorem slice_has_same_tokens (line : String) {i j : Nat} (full : i < j)
    (within : j ≤ (ofLine line).length) :
    let ts := ((ofLine line).take j).drop i
    ∃ first last text, (ofLine line)[i]? = some first ∧ (ofLine line)[j - 1]? = some last ∧
      slice? line first.start last.stop = some text ∧ text = slice ts ∧
      (ofLine text).map (seenFrom 0) = ts.map (seenFrom first.start) := by
  intro ts
  have whole : ofLine line = (ofLine line).take i ++ (ts ++ (ofLine line).drop j) := by
    have front : (ofLine line).take i = ((ofLine line).take j).take i := by
      rw [List.take_take, Nat.min_eq_left (Nat.le_of_lt full)]
    rw [← List.append_assoc, front, List.take_append_drop, List.take_append_drop]
  have head : ts.head? = (ofLine line)[i]? := by
    rw [List.head?_drop, List.getElem?_take_of_lt full]
  have last : ts.getLast? = (ofLine line)[j - 1]? := by
    have size : ts.length = j - i := by simp [ts, Nat.min_eq_left within]
    rw [List.getLast?_eq_getElem?, size, List.getElem?_drop,
      List.getElem?_take_of_lt (by omega)]
    congr 1
    omega
  obtain ⟨first, begins⟩ : ∃ first, (ofLine line)[i]? = some first :=
    ⟨_, List.getElem?_eq_getElem (by omega)⟩
  obtain ⟨final, ends⟩ : ∃ final, (ofLine line)[j - 1]? = some final :=
    ⟨_, List.getElem?_eq_getElem (by omega)⟩
  refine ⟨first, final, slice ts, begins, ends,
    slice?_tokens whole (head.trans begins) (last.trans ends), rfl, ?_⟩
  obtain ⟨more, eq⟩ := List.head?_eq_some_iff.1 (head.trans begins)
  have inside : first :: more <:+: ofLine line :=
    ⟨_, _, by rw [← eq, List.append_assoc]; exact whole.symm⟩
  have again := ofLine_slice inside
  rw [← eq] at again
  calc (ofLine (slice ts)).map (seenFrom 0)
      = ((ofLine (slice ts)).map (later first.start)).map (seenFrom first.start) := by
        rw [List.map_map]
        exact List.map_congr_left fun t _ => (seenFrom_later first.start t).symm
    _ = ({ first with gap := "" } :: more).map (seenFrom first.start) := by rw [again]
    _ = ts.map (seenFrom first.start) := by rw [eq]; rfl

theorem slice_has_same_tokens_open_ended :
    let line := "y = 1.5E+ & \"it's"
    let ts := ((ofLine line).take 7).drop 2
    (2 < 7 ∧ 7 ≤ (ofLine line).length) ∧
    ts.map Token.kind = [.float, .identifier, .symbol .plus, .symbol .ampersand, .unknown] ∧
    (ofLine "1.5E+ & \"it's").map (seenFrom 0) = ts.map (seenFrom 4) := by
  intro line ts
  have within : 7 ≤ (ofLine line).length := by decide +kernel
  obtain ⟨first, last, text, begins, -, -, eq, same⟩ :=
    slice_has_same_tokens line (i := 2) (by decide) within
  have starts : (ofLine line)[2]?.map Token.start = some 4 := by decide +kernel
  have cut : slice (((ofLine line).take 7).drop 2) = "1.5E+ & \"it's" := by decide +kernel
  rw [begins] at starts
  rw [eq, cut, Option.some.inj starts] at same
  exact ⟨⟨by decide, within⟩, by decide +kernel, same⟩

end Token

namespace LogicalLine

def marks : List Char := ['"', '\x27', 'r', 'R']

def isInert (c : Char) : Bool := !marks.contains c

theorem startsRemark_of_isInert {c : Char} (inert : isInert c = true) (rest : List Char) :
    startsRemark (c :: rest) = false := by
  have other : c.toLower ≠ 'r' := by
    intro same
    have caseless := caseless_of_capitals (p := isInert) (by decide) c
    rw [same, inert] at caseless
    exact absurd caseless (by decide)
  unfold startsRemark
  split
  · rename_i eq
    obtain ⟨rfl, -⟩ := List.cons.inj eq
    simp [other]
  · rfl

/-- Whether a text ends inside a word, where `inWord` tells it for what goes before. -/
def wordAfter (inWord : Bool) (cs : List Char) : Bool :=
  cs.foldl (fun _ c => isRemarkNeighbour c) inWord

variable {cs : List Char}

theorem beforeComment_inert (inert : ∀ c ∈ cs, isInert c = true) (inWord : Bool)
    (rest : List Char) : beforeComment false inWord (cs ++ rest) =
      cs ++ beforeComment false (wordAfter inWord cs) rest := by
  induction cs generalizing inWord with
  | nil => rfl
  | cons c cs ih =>
    obtain ⟨first, others⟩ := List.forall_mem_cons.1 inert
    have plain : c ≠ '"' ∧ c ≠ '\x27' := by
      constructor <;> rintro rfl <;> exact absurd first (by decide)
    have unmarked := startsRemark_of_isInert first (cs ++ rest)
    simp [beforeComment, plain, unmarked, ih others, wordAfter]

theorem beforeComment_quoted (inside : '"' ∉ cs) (inWord : Bool) (rest : List Char) :
    beforeComment true inWord (cs ++ rest) =
      cs ++ beforeComment true (wordAfter inWord cs) rest := by
  induction cs generalizing inWord with
  | nil => rfl
  | cons c cs ih =>
    obtain ⟨other, others⟩ : '"' ≠ c ∧ '"' ∉ cs := by simpa using inside
    simp [beforeComment, other.symm, ih others, wordAfter]

theorem beforeComment_word (word : ∀ c ∈ cs, isRemarkNeighbour c = true) (rest : List Char) :
    beforeComment false true (cs ++ rest) =
      cs ++ beforeComment false (wordAfter true cs) rest := by
  induction cs with
  | nil => rfl
  | cons c cs ih =>
    obtain ⟨first, others⟩ := List.forall_mem_cons.1 word
    have plain : c ≠ '"' ∧ c ≠ '\x27' := by
      constructor <;> rintro rfl <;> exact absurd first (by decide)
    simp [beforeComment, plain, first, ih others, wordAfter]

theorem isPrefix_beforeComment (quoted inWord : Bool) (cs : List Char) :
    beforeComment quoted inWord cs <+: cs := by
  induction cs generalizing quoted inWord with
  | nil => exact List.prefix_rfl
  | cons c rest ih =>
    rw [beforeComment]
    split
    · exact (List.prefix_cons_inj c).2 (ih _ _)
    split
    · exact List.nil_prefix
    · exact (List.prefix_cons_inj c).2 (ih _ _)

end LogicalLine

def Pattern.avoids (cs : List Char) : Pattern → Bool
  | .empty => true
  | .one holds => cs.all (!holds ·)
  | .seq first second => first.avoids cs && second.avoids cs
  | .alt left right => left.avoids cs && right.avoids cs
  | .many repeated => repeated.avoids cs

theorem Pattern.not_mem_of_avoids {cs w : List Char} {pattern : Pattern}
    (avoids : pattern.avoids cs = true) (matched : Matches pattern w) : ∀ c ∈ w, c ∉ cs := by
  induction matched with
  | empty | stop => simp
  | one here =>
    refine List.forall_mem_singleton.2 fun mem => ?_
    have clear := List.all_eq_true.1 avoids _ mem
    simp [here] at clear
  | seq _ _ first second =>
    obtain ⟨left, right⟩ := Bool.and_eq_true_iff.1 avoids
    exact List.forall_mem_append.2 ⟨first left, second right⟩
  | left _ here => exact here (Bool.and_eq_true_iff.1 avoids).1
  | right _ here => exact here (Bool.and_eq_true_iff.1 avoids).2
  | more _ _ first rest => exact List.forall_mem_append.2 ⟨first avoids, rest avoids⟩

namespace Token

open LogicalLine

variable {kind : TokenKind} {rest : List Char}

variable {w text gap : List Char}

theorem inert_of_matches (matched : kind.pattern.Matches w) (noWord : kind.isWord = false)
    (noText : kind ≠ .text) (noMark : w ≠ ['\x27']) : ∀ c ∈ w, isInert c = true := by
  have avoiding (avoids : kind.pattern.avoids marks = true) : ∀ c ∈ w, isInert c = true := by
    simpa [isInert] using Pattern.not_mem_of_avoids avoids matched
  cases kind with
  | keyword | identifier => cases noWord
  | text => exact absurd rfl noText
  | symbol s => exact avoiding (by cases s <;> decide)
  | integer | float | hex | octal | binary => exact avoiding (by decide)
  | unknown =>
    obtain ⟨c, rfl, here⟩ := Pattern.matches_one.1 matched
    refine List.forall_mem_singleton.2 ?_
    have apart : c ≠ '\x27' := fun same => noMark (by rw [same])
    simp only [isInert, marks, List.contains_cons, Bool.not_or, Bool.and_eq_true, Bool.not_eq_true',
      beq_eq_false_iff_ne, ne_eq, List.contains_nil]
    refine ⟨?_, apart, ?_, ?_, trivial⟩ <;> rintro rfl <;> simp [isNameChar] at here

theorem neighbours_of_matches (matched : kind.pattern.Matches w) (word : kind.isWord = true) :
    ∀ c ∈ w, isRemarkNeighbour c = true := by
  have named {c : Char} (name : isNameChar c = true) : isRemarkNeighbour c = true := by
    rw [isRemarkNeighbour, name, Bool.true_or]
  cases kind with
  | keyword k =>
    intro c mem
    have letter := (keyword_chars matched).2 c mem
    exact named (isNameChar_of_start (Bool.or_eq_true_iff.2 (.inl letter)))
  | identifier =>
    obtain ⟨c, rest, rfl, start, following⟩ := Pattern.matches_one_seq.1 matched
    obtain ⟨names, suffix, rfl, all, dollar⟩ := Pattern.matches_seq.1 following
    refine List.forall_mem_cons.2 ⟨named (isNameChar_of_start start), List.forall_mem_append.2
      ⟨fun d mem => named (Pattern.matches_many_one.1 all d mem), ?_⟩⟩
    rcases Pattern.matches_maybe.1 dollar with one | rfl
    · obtain ⟨d, rfl, here⟩ := Pattern.matches_one.1 one
      exact List.forall_mem_singleton.2 (by rw [isRemarkNeighbour, here, Bool.or_true])
    · simp
  | _ => cases word

theorem identifier_matches {c : Char} {names suffix : List Char}
    (start : (c.isAlpha || c == '_') = true) (all : ∀ d ∈ names, isNameChar d = true)
    (ends : suffix = ['$'] ∨ suffix = []) :
    TokenKind.identifier.pattern.Matches (c :: (names ++ suffix)) := by
  refine Pattern.matches_one_seq.2 ⟨c, _, rfl, start, Pattern.matches_seq.2 ⟨names, suffix, rfl,
    Pattern.matches_many_one.2 all, Pattern.matches_maybe.2 (ends.imp_left ?_)⟩⟩
  rintro rfl
  exact .one rfl

theorem startsRemark_word
    (longest : ∀ longer, longer <+: text ++ rest →
      TokenKind.identifier.pattern.Matches longer → longer.length ≤ text.length)
    (word : ∀ c ∈ text, isRemarkNeighbour c = true) :
    startsRemark (text ++ rest) = sameWord (String.ofList text) "Rem" := by
  have letter {c d : Char} (same : c.toLower = d) (alpha : d.isAlpha = true) : c.isAlpha = true :=
    isAlpha_of_lower (by rw [same]; exact alpha)
  have named {c d : Char} (same : c.toLower = d) (alpha : d.isAlpha = true) : isNameChar c = true :=
    isNameChar_of_start (Bool.or_eq_true_iff.2 (.inl (letter same alpha)))
  rw [Bool.eq_iff_iff, sameWord_iff, lower_ofList, ← String.toList_inj, String.toList_ofList,
    show (Text.lower "Rem").toList = ['r', 'e', 'm'] by decide]
  constructor
  · intro remark
    unfold startsRemark at remark
    split at remark
    · rename_i r e m after eq
      simp only [Bool.and_eq_true, beq_iff_eq, Bool.not_eq_true'] at remark
      obtain ⟨⟨⟨isR, isE⟩, isM⟩, ends⟩ := remark
      have reached : 3 ≤ text.length := longest [r, e, m] (by rw [eq]; exact ⟨after, rfl⟩)
        (@identifier_matches r [e, m] [] (Bool.or_eq_true_iff.2 (.inl (letter isR rfl)))
          (by simp [named isE rfl, named isM rfl]) (.inr rfl))
      obtain ⟨more, rfl⟩ : [r, e, m] <+: text :=
        List.prefix_of_prefix_length_le ⟨after, by rw [eq]; rfl⟩
          (List.prefix_append text rest) reached
      obtain rfl : more ++ rest = after := by simpa using eq
      cases more with
      | nil => simp [isR, isE, isM]
      | cons d more => simp [word d (by simp)] at ends
    · cases remark
  · intro remark
    obtain ⟨r, _, rfl, isR, two⟩ := List.map_eq_cons_iff.1 remark
    obtain ⟨e, _, rfl, isE, one⟩ := List.map_eq_cons_iff.1 two
    obtain ⟨m, _, rfl, isM, none_left⟩ := List.map_eq_cons_iff.1 one
    obtain rfl := List.map_eq_nil_iff.1 none_left
    have ends : rest.head?.any isRemarkNeighbour = false := by
      cases rest with
      | nil => rfl
      | cons d rest =>
        refine Bool.eq_false_iff.2 fun neighbour => ?_
        -- the character would go on with the word
        have start : (r.isAlpha || r == '_') = true := Bool.or_eq_true_iff.2 (.inl (letter isR rfl))
        have onward : TokenKind.identifier.pattern.Matches [r, e, m, d] := by
          rcases Bool.or_eq_true_iff.1 neighbour with name | dollar
          · exact @identifier_matches r [e, m, d] [] start
              (by simp [named isE rfl, named isM rfl, name]) (.inr rfl)
          · obtain rfl := beq_iff_eq.1 dollar
            exact @identifier_matches r [e, m] ['$'] start
              (by simp [named isE rfl, named isM rfl]) (.inl rfl)
        exact absurd (longest _ ⟨rest, rfl⟩ onward) (by simp)
    simp [startsRemark, isR, isE, isM, ends]

def opensComment (inWord : Bool) (t : Token) : Bool :=
  t.text == "'" || !inWord && t.isNamed "Rem"

theorem beforeComment_of_word {t : Token} (word : t.isWord = true)
    (matched : t.kind.pattern.Matches t.text.toList)
    (longest : ∀ longer, longer <+: t.text.toList ++ rest →
      TokenKind.identifier.pattern.Matches longer → longer.length ≤ t.text.toList.length)
    (inWord : Bool) :
    beforeComment false inWord (t.text.toList ++ rest) =
      if t.opensComment inWord then []
      else t.text.toList ++ beforeComment false (wordAfter inWord t.text.toList) rest := by
  have neighbours := neighbours_of_matches matched word
  have remark := startsRemark_word longest neighbours
  obtain ⟨c, more, eq, -⟩ := starts_of_matches matched
  rw [eq] at neighbours
  obtain ⟨first, others⟩ := List.forall_mem_cons.1 neighbours
  have plain : c ≠ '"' ∧ c ≠ '\x27' := by
    constructor <;> rintro rfl <;> exact absurd first (by decide)
  have noMark : (t.text == "'") = false := by
    refine beq_eq_false_iff_ne.2 fun same => plain.2 ?_
    rw [same] at eq
    exact (List.cons.inj eq).1.symm
  have opens : t.opensComment inWord = (!inWord && startsRemark (c :: (more ++ rest))) := by
    rw [opensComment, noMark, isNamed, word, ← List.cons_append, ← eq, remark, String.ofList_toList,
      Bool.false_or, Bool.true_and]
  rw [eq, List.cons_append, LogicalLine.beforeComment, ← opens]
  simp [plain, first, beforeComment_word others, wordAfter]

theorem Reads.beforeComment {t : Token} {rest : List Char}
    (reads : Reads t.kind t.text.toList rest) (inWord : Bool) :
    beforeComment false inWord (t.text.toList ++ rest) =
      if t.opensComment inWord then []
      else t.text.toList ++ beforeComment false (wordAfter inWord t.text.toList) rest := by
  have silent (other : t.kind.isWord = false) (apart : t.text.toList ≠ ['\x27']) :
      t.opensComment inWord = false := by
    have noMark : (t.text == "'") = false :=
      beq_eq_false_iff_ne.2 fun same => apart (by rw [same]; rfl)
    rw [opensComment, noMark, isNamed, isWord, other]
    simp
  cases reads with
  | unclosed unknown _ quote ends =>
    obtain ⟨tail, eq, inside⟩ := quote
    rw [silent (by rw [unknown]; rfl) (by simp [eq]), ends, eq]
    have quoted := beforeComment_quoted inside false []
    simp only [List.append_nil, LogicalLine.beforeComment] at quoted
    simp [LogicalLine.beforeComment, quoted]
  | longest matched longest preferred =>
    cases word : t.kind.isWord with
    | true => exact beforeComment_of_word word matched (fun _ => longest .identifier _) inWord
    | false =>
      by_cases isText : t.kind = .text
      · rw [isText] at matched
        obtain ⟨c, _, eq, quote, following⟩ := Pattern.matches_one_seq.1 matched
        obtain ⟨inside, _, rfl, none_inside, final⟩ := Pattern.matches_seq.1 following
        obtain ⟨d, rfl, quote'⟩ := Pattern.matches_one.1 final
        obtain rfl := beq_iff_eq.1 quote
        obtain rfl := beq_iff_eq.1 quote'
        have clear : '"' ∉ inside := fun mem => by
          simpa using Pattern.matches_many_one.1 none_inside _ mem
        rw [silent word (by simp [eq]), eq]
        simp [LogicalLine.beforeComment, beforeComment_quoted clear, wordAfter, isRemarkNeighbour,
          isNameChar]
      · by_cases mark : t.text.toList = ['\x27']
        · have opens : t.opensComment inWord = true := by
            rw [opensComment, show t.text = "'" from String.toList_inj.1 mark]
            rfl
          rw [opens, mark]
          simp [LogicalLine.beforeComment]
        · rw [silent word mark]
          exact beforeComment_inert (inert_of_matches matched word isText mark) inWord rest

def uncommented (inWord : Bool) : List Token → List Token
  | [] => []
  | t :: ts =>
    if t.opensComment (wordAfter inWord t.gap.toList) then []
    else t :: uncommented (wordAfter inWord (t.gap.toList ++ t.text.toList)) ts

theorem uncommented_prefix (inWord : Bool) (ts : List Token) : uncommented inWord ts <+: ts := by
  induction ts generalizing inWord with
  | nil => exact List.prefix_rfl
  | cons t ts ih =>
    rw [uncommented]
    split
    · exact List.nil_prefix
    · exact (List.prefix_cons_inj t).2 (ih _)

theorem uncommented_uncommented (inWord : Bool) (ts : List Token) :
    uncommented inWord (uncommented inWord ts) = uncommented inWord ts := by
  induction ts generalizing inWord with
  | nil => rfl
  | cons t ts ih =>
    rw [uncommented]
    split
    · rfl
    · rename_i goes_on
      rw [uncommented, if_neg goes_on, ih]

theorem wordAfter_append (inWord : Bool) (a b : List Char) :
    wordAfter inWord (a ++ b) = wordAfter (wordAfter inWord a) b :=
  List.foldl_append

theorem beforeComment_gap (white : ∀ c ∈ gap, isGap c = true) (inWord : Bool) (rest : List Char) :
    beforeComment false inWord (gap ++ rest) =
      gap ++ beforeComment false (wordAfter inWord gap) rest := by
  refine beforeComment_inert (fun c mem => ?_) inWord rest
  have blank := white c mem
  simp only [isGap, Bool.or_eq_true, beq_iff_eq] at blank
  rcases blank with (((rfl | rfl) | rfl) | rfl) | rfl <;> decide

theorem beforeComment_token (white : ∀ c ∈ gap, isGap c = true) (reads : Reads kind text rest)
    (inWord : Bool) (offset : Nat) :
    beforeComment false inWord (gap ++ (text ++ rest)) =
      if opensComment (wordAfter inWord gap) ⟨kind, String.ofList gap, String.ofList text, offset⟩
      then gap
      else gap ++ (text ++ beforeComment false (wordAfter inWord (gap ++ text)) rest) := by
  let t : Token := ⟨kind, String.ofList gap, String.ofList text, offset⟩
  have step := @Reads.beforeComment t rest (by simpa [t] using reads) (wordAfter inWord gap)
  simp only [t, String.toList_ofList] at step
  rw [beforeComment_gap white, step, wordAfter_append]
  split
  · exact List.append_nil _
  · rfl

section Cut

variable {start : Nat} {cs : List Char} {ts : List Token}

theorem Laid.beforeComment (laid : Laid start cs ts) (inWord : Bool) :
    Laid start (beforeComment false inWord cs) (uncommented inWord ts) := by
  induction laid generalizing inWord with
  | @done start gap white =>
    have whole := beforeComment_gap white inWord []
    rw [LogicalLine.beforeComment, List.append_nil] at whole
    rw [whole]
    exact .done start white
  | @token start gap text rest kind ts white reads _ ih =>
    rw [beforeComment_token white reads inWord (start + byteSize gap), uncommented]
    simp only [String.toList_ofList]
    split
    · exact .done start white
    · exact .token white (reads.cut (isPrefix_beforeComment _ _ rest)) (ih _)

theorem Laid.comment_outside (laid : Laid start cs ts) (inWord : Bool) :
    ∀ t ∈ ts, t.stop ≤ start + byteSize (LogicalLine.beforeComment false inWord cs) ∨
      start + byteSize (LogicalLine.beforeComment false inWord cs) ≤ t.start := by
  induction laid generalizing inWord with
  | done => simp
  | @token start gap text rest kind ts white reads following ih =>
    rw [beforeComment_token white reads inWord (start + byteSize gap)]
    split
    · refine List.forall_mem_cons.2 ⟨.inr (Nat.le_refl _), fun u mem => .inr ?_⟩
      have bounds := (following.spans.2 u mem).1
      omega
    · simp only [byteSize_append]
      refine List.forall_mem_cons.2 ⟨.inl ?_, fun u mem => ?_⟩
      · simp only [stop, String.toList_ofList]
        omega
      · rcases ih (wordAfter inWord (gap ++ text)) u mem with before | after
        · exact .inl (by omega)
        · exact .inr (by omega)

theorem Laid.beforeComment_eq_self (laid : Laid start cs ts) {inWord : Bool}
    (none_opens : uncommented inWord ts = ts) : LogicalLine.beforeComment false inWord cs = cs := by
  induction laid generalizing inWord with
  | done _ white => simpa [LogicalLine.beforeComment] using beforeComment_gap white inWord []
  | @token start gap text rest kind ts white reads _ ih =>
    rw [uncommented] at none_opens
    simp only [String.toList_ofList] at none_opens
    split at none_opens
    · cases none_opens
    · rename_i goes_on
      rw [beforeComment_token white reads inWord (start + byteSize gap), if_neg goes_on,
        ih (List.cons.inj none_opens).2]

end Cut

theorem comment_cut_between_tokens (line : String) :
    let kept := stripComment line
    kept.toList <+: line.toList ∧ stripComment kept = kept ∧
    ofLine kept = uncommented false (ofLine line) ∧ ofLine kept <+: ofLine line ∧
    ∀ t ∈ ofLine line, t.stop ≤ byteSize kept.toList ∨ byteSize kept.toList ≤ t.start := by
  intro kept
  have chars : kept.toList = LogicalLine.beforeComment false false line.toList :=
    String.toList_ofList
  have laid := laid_ofLine line
  have cut := laid.beforeComment false
  rw [← chars] at cut
  have tokens : ofLine kept = uncommented false (ofLine line) := (laid_ofLine kept).unique cut rfl
  refine ⟨?_, ?_, tokens, ?_, ?_⟩
  · rw [chars]
    exact isPrefix_beforeComment false false line.toList
  · have again := cut.beforeComment_eq_self (uncommented_uncommented false (ofLine line))
    rw [stripComment, again, String.ofList_toList]
  · rw [tokens]
    exact uncommented_prefix false (ofLine line)
  · have outside := laid.comment_outside false
    rw [← chars] at outside
    simpa using outside

example : (uncommented false (ofLine "x$ = \"it's\" & 3Rem: rem 'y")).map Token.text =
    ["x$", "=", "\"it's\"", "&", "3", "Rem", ":"] := by
  decide +kernel

end Token

end BasicSketch
