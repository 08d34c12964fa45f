import BasicSketch.Proofs.Lexing
import BasicSketch.Token.Group

set_option autoImplicit false

/-! Texts that are cut out of a line and read again. -/

namespace BasicSketch.Token

open Text (dropBlanks isBlank isNameChar isNameChar_iff trim)

def covered (ts : List Token) : List Char := ts.flatMap fun t => t.gap.toList ++ t.text.toList

@[simp] theorem covered_nil : covered [] = [] := rfl

@[simp] theorem covered_cons (t : Token) (ts : List Token) :
    covered (t :: ts) = t.gap.toList ++ (t.text.toList ++ covered ts) := by
  simp [covered]

theorem toList_slice (t : Token) (ts : List Token) :
    (slice (t :: ts)).toList = t.text.toList ++ covered ts := by
  rw [slice, String.toList_append]
  congr 1
  induction ts with
  | nil => rfl
  | cons u ts ih => simp [ih]

def later (distance : Nat) (t : Token) : Token := { t with start := distance + t.start }

@[simp] theorem later_kind (distance : Nat) (t : Token) : (later distance t).kind = t.kind := rfl

@[simp] theorem later_nesting (distance : Nat) (t : Token) :
    (later distance t).nesting = t.nesting := rfl

variable {start : Nat} {cs : List Char} {ts : List Token}

variable {rest w : List Char} {line : String} {t : Token} {c : Char}

theorem Laid.bare (start : Nat) {kind : TokenKind} {text : List Char} {ts : List Token}
    (reads : Reads kind text rest) (rest_laid : Laid (start + byteSize text) rest ts) :
    Laid start (text ++ rest) (⟨kind, "", String.ofList text, start⟩ :: ts) := by
  have white : ∀ c ∈ ([] : List Char), isGap c = true := by simp
  exact .token white reads rest_laid

theorem Laid.ended (start : Nat) : Laid start [] [] := .done start (by simp)

theorem Laid.covered_prefix (laid : Laid start cs ts) : covered ts <+: cs := by
  induction laid with
  | done => exact List.nil_prefix
  | token _ _ _ ih =>
    simp only [covered_cons, String.toList_ofList]
    exact (List.prefix_append_right_inj _).2 ((List.prefix_append_right_inj _).2 ih)

theorem Laid.drop {before : List Token} (laid : Laid start cs (before ++ ts)) :
    ∃ start' cs', Laid start' cs' ts := by
  induction before generalizing start cs with
  | nil => exact ⟨start, cs, laid⟩
  | cons t before ih =>
    cases laid with
    | token _ _ rest => exact ih rest

theorem Laid.take {after : List Token} (laid : Laid start cs (ts ++ after)) :
    Laid start (covered ts) ts := by
  induction ts generalizing start cs with
  | nil => exact .done start (by simp)
  | cons t ts ih =>
    cases laid with
    | token white reads rest =>
      have laid := ih rest
      have shorter : covered ts <+: _ :=
        (List.prefix_append (covered ts) (covered after)).trans
          (by simpa [covered] using rest.covered_prefix)
      simpa using Laid.token white (reads.cut shorter) laid

theorem Laid.later (laid : Laid start cs ts) (distance : Nat) :
    Laid (distance + start) cs (ts.map (Token.later distance)) := by
  induction laid with
  | done _ white => exact .done _ white
  | @token start gap text rest kind ts white reads _ ih =>
    have moved : Laid (distance + start + byteSize gap + byteSize text) rest
        (ts.map (Token.later distance)) := by
      simpa only [Nat.add_assoc] using ih
    simpa [Token.later, Nat.add_assoc] using Laid.token white reads moved

theorem Laid.eq_ofLine (laid : Laid start cs ts) :
    ts = (ofLine (String.ofList cs)).map (Token.later start) := by
  have scanned := (laid_ofLine (String.ofList cs)).later start
  rw [String.toList_ofList, Nat.add_zero] at scanned
  exact laid.unique scanned rfl

theorem ofLine_slice {ts : List Token} (inside : t :: ts <:+: ofLine line) :
    (ofLine (slice (t :: ts))).map (later t.start) = { t with gap := "" } :: ts := by
  obtain ⟨before, after, eq⟩ := inside
  have laid := laid_ofLine line
  rw [← eq, List.append_assoc] at laid
  obtain ⟨start, cs, rest⟩ := laid.drop
  cases rest with
  | @token _ gap text rest kind _ _ reads following =>
    have cut : Laid _ (covered (⟨kind, "", String.ofList text, start + byteSize gap⟩ :: ts)) _ :=
      (Laid.bare (start + byteSize gap) reads following).take
    have same : covered (⟨kind, "", String.ofList text, start + byteSize gap⟩ :: ts) =
        (slice (⟨kind, String.ofList gap, String.ofList text, start + byteSize gap⟩ ::
          ts)).toList := by
      rw [toList_slice, covered_cons]
      rfl
    rw [same] at cut
    simpa using cut.eq_ofLine.symm

theorem ofLine_text (mem : t ∈ ofLine line) : ∃ u, ofLine t.text = [u] ∧ u.kind = t.kind := by
  obtain ⟨before, after, eq⟩ := List.append_of_mem mem
  have inside : [t] <:+: ofLine line := ⟨before, after, by simp [eq]⟩
  have alone := ofLine_slice inside
  have text : slice [t] = t.text := String.append_empty
  rw [text] at alone
  obtain ⟨u, single, same⟩ := List.map_eq_singleton_iff.1 alone
  exact ⟨u, single, (Token.mk.inj same).1⟩

def known (ts : List Token) : List TokenKind := (ts.map kind).filter (· != .unknown)

theorem known_cons (t : Token) (ts : List Token) :
    known (t :: ts) = if t.kind = .unknown then known ts else t.kind :: known ts := by
  by_cases unknown : t.kind = .unknown <;> simp [known, unknown]

theorem known_append (ts us : List Token) : known (ts ++ us) = known ts ++ known us := by
  simp [known]

def wording (ts : List Token) : List (TokenKind × String) := ts.map fun t => (t.kind, t.text)

@[simp] theorem wording_later (distance : Nat) (ts : List Token) :
    wording (ts.map (later distance)) = wording ts := by
  simp [wording, later]

theorem Laid.wording_eq (laid : Laid start cs ts) :
    wording ts = wording (ofLine (String.ofList cs)) := by
  have same := congrArg wording laid.eq_ofLine
  simpa using same

theorem isBlank_of_isGap (white : isGap c = true) : isBlank c = true := by
  simp only [isGap, Bool.or_eq_true, beq_iff_eq] at white
  rcases white with (((rfl | rfl) | rfl) | rfl) | rfl <;> decide

theorem not_isBlank_of_isNameChar (name : isNameChar c = true) : isBlank c = false := by
  rw [isNameChar_iff] at name
  simp [isBlank]
  omega

theorem not_isBlank_of_symbol (s : Symbol) : ∀ c ∈ s.text.toList, isBlank c = false := by
  have all : s.text.toList.all (fun c => isBlank c == false) = true := by
    cases s <;> decide
  intro c mem
  exact eq_of_beq (List.all_eq_true.1 all c mem)

theorem exponent_chars {e : List Char} (matched : TokenKind.exponent.Matches e) :
    ∀ c ∈ e, isNameChar c = true ∨ c ∈ ['.', '+', '-'] := by
  obtain ⟨m, s, d, rfl, mark, sign, -, digits⟩ := matches_exponent.1 matched
  intro c mem
  rcases List.mem_cons.1 mem with rfl | tail
  · rcases mark with rfl | rfl <;> decide
  · rcases List.mem_append.1 tail with here | digit
    · rcases sign with rfl | rfl | rfl
      · rw [List.mem_singleton.1 here]
        decide
      · rw [List.mem_singleton.1 here]
        decide
      · cases here
    · exact .inl (isNameChar_of_isDigit (digits c digit))

theorem float_chars (matched : TokenKind.float.pattern.Matches w) :
    ∀ c ∈ w, isNameChar c = true ∨ c ∈ ['.', '+', '-'] := by
  intro c mem
  rcases matches_float.1 matched with ⟨a, b, e, rfl, whole, ⟨-, fraction⟩, exponent⟩ |
    ⟨a, e, rfl, ⟨-, whole⟩, exponent⟩
  · rcases List.mem_append.1 mem with first | rest
    · exact .inl (isNameChar_of_isDigit (whole c first))
    · rcases List.mem_cons.1 rest with rfl | tail
      · decide
      · rcases List.mem_append.1 tail with middle | last
        · exact .inl (isNameChar_of_isDigit (fraction c middle))
        · rcases exponent with matched | rfl
          · exact exponent_chars matched c last
          · cases last
  · rcases List.mem_append.1 mem with first | last
    · exact .inl (isNameChar_of_isDigit (whole c first))
    · exact exponent_chars exponent c last

theorem not_isBlank_of_float (matched : TokenKind.float.pattern.Matches w) :
    ∀ c ∈ w, isBlank c = false := by
  have marks : ∀ c ∈ ['.', '+', '-'], isBlank c = false := by simp [isBlank]
  intro c mem
  rcases float_chars matched c mem with name | mark
  · exact not_isBlank_of_isNameChar name
  · exact marks c mark

theorem not_isBlank_of_based {base digit : Char → Bool}
    (matched : (TokenKind.based base digit).Matches w)
    (letters : ∀ c, base c = true → isNameChar c = true)
    (digits : ∀ c, digit c = true → isNameChar c = true) :
    ∀ c ∈ w, isBlank c = false := by
  obtain ⟨b, d, rfl, is, -, inside⟩ := matches_based.1 matched
  intro c mem
  rcases List.mem_cons.1 mem with rfl | tail
  · decide
  · rcases List.mem_cons.1 tail with rfl | digit
    · exact not_isBlank_of_isNameChar (letters c is)
    · exact not_isBlank_of_isNameChar (digits c (inside c digit))

theorem isNameChar_of_isHexDigit (digit : isHexDigit c = true) : isNameChar c = true := by
  simp only [isHexDigit, Bool.or_eq_true, Bool.and_eq_true, decide_eq_true_eq, Char.le_def,
    UInt32.le_iff_toNat_le] at digit
  rcases digit with (decimal | upper) | lower
  · exact isNameChar_of_isDigit decimal
  all_goals rw [isNameChar_iff]
  · exact .inl (.inl (.inl ⟨upper.1, Nat.le_trans upper.2 (by decide)⟩))
  · exact .inl (.inl (.inr ⟨lower.1, Nat.le_trans lower.2 (by decide)⟩))

theorem isNameChar_of_isOctalDigit (digit : isOctalDigit c = true) : isNameChar c = true := by
  simp only [isOctalDigit, Bool.and_eq_true, decide_eq_true_eq, Char.le_def,
    UInt32.le_iff_toNat_le] at digit
  refine isNameChar_of_isDigit ?_
  simp only [Char.isDigit, Bool.and_eq_true, decide_eq_true_eq, ge_iff_le, UInt32.le_iff_toNat_le]
  change 48 ≤ c.val.toNat ∧ c.val.toNat ≤ 55 at digit
  change 48 ≤ c.val.toNat ∧ c.val.toNat ≤ 57
  omega

theorem eq_nil_of_blank {kind : TokenKind} (matched : kind.pattern.Matches (w ++ [c]))
    (blank : isBlank c = true) : w = [] := by
  have dark (chars : ∀ d ∈ w ++ [c], isBlank d = false) : w = [] := by
    have last := chars c (by simp)
    rw [blank] at last
    cases last
  cases kind with
  | keyword k =>
    refine dark fun d mem => not_isBlank_of_isNameChar (isNameChar_of_start ?_)
    exact Bool.or_eq_true_iff.2 (.inl ((keyword_chars matched).2 d mem))
  | symbol s => exact dark (matches_symbol.1 matched ▸ not_isBlank_of_symbol s)
  | integer =>
    refine dark fun d mem => not_isBlank_of_isNameChar (isNameChar_of_isDigit ?_)
    exact (Pattern.matches_atLeastOne.1 matched).2 d mem
  | float => exact dark (not_isBlank_of_float matched)
  | text =>
    obtain ⟨a, eq, -⟩ := matches_text.1 matched
    have last : [c] = ['"'] := (List.append_inj' (eq.trans List.cons_append.symm) rfl).2
    obtain rfl := List.singleton_inj.1 last
    cases blank
  | identifier =>
    obtain ⟨d, b, e, eq, start, names, suffix⟩ := matches_identifier.1 matched
    refine dark ?_
    rw [eq]
    intro x mem
    rcases List.mem_cons.1 mem with rfl | tail
    · exact not_isBlank_of_isNameChar (isNameChar_of_start start)
    · rcases List.mem_append.1 tail with name | dollar
      · exact not_isBlank_of_isNameChar (names x name)
      · rcases suffix with rfl | rfl
        · rw [List.mem_singleton.1 dollar]
          decide
        · cases dollar
  | unknown =>
    have single := length_of_matches_unknown matched
    simpa using single
  | hex =>
    refine dark (not_isBlank_of_based matched ?_ fun _ => isNameChar_of_isHexDigit)
    simp only [Bool.or_eq_true, beq_iff_eq]
    rintro d (rfl | rfl) <;> decide
  | octal =>
    refine dark (not_isBlank_of_based matched ?_ fun _ => isNameChar_of_isOctalDigit)
    simp only [Bool.or_eq_true, beq_iff_eq]
    rintro d (rfl | rfl) <;> decide
  | binary =>
    refine dark (not_isBlank_of_based matched ?_ ?_)
    · simp only [Bool.or_eq_true, beq_iff_eq]
      rintro d (rfl | rfl) <;> decide
    · simp only [isBinaryDigit, Bool.or_eq_true, beq_iff_eq]
      rintro d (rfl | rfl) <;> decide

theorem Reads.snoc {kind : TokenKind} {text : List Char} (reads : Reads kind text rest)
    (blank : isBlank c = true) :
    Reads kind text (rest ++ [c]) ∨
      kind = .unknown ∧ rest = [] ∧ Reads .unknown (text ++ [c]) [] := by
  obtain ⟨first, more, full, -⟩ := reads.begins
  -- a match that takes in the blank would be that blank alone
  have unmatched (other : TokenKind) {w : List Char} (begins : w <+: text ++ rest ++ [c])
      (matched : other.pattern.Matches w) : w <+: text ++ rest := by
    rcases List.prefix_concat_iff.1 begins with rfl | shorter
    · have absent := eq_nil_of_blank matched blank
      simp [full] at absent
    · exact shorter
  cases reads with
  | longest matched longest preferred =>
    refine .inl (.longest matched (fun other longer begins matched' => ?_) preferred)
    rw [← List.append_assoc] at begins
    exact longest other longer (unmatched other begins matched') matched'
  | unclosed unknown absent quote ends =>
    subst ends
    refine .inr ⟨unknown, rfl, .unclosed rfl (fun other w begins matched => ?_) ?_ rfl⟩
    · have shorter := unmatched other (by simpa using begins) matched
      exact absent other w (by simpa using shorter) matched
    · obtain ⟨tail, rfl, free⟩ := quote
      refine ⟨tail ++ [c], rfl, ?_⟩
      have other : '"' ≠ c := by
        rintro rfl
        cases blank
      simpa [other] using free

theorem unknown_of_blank {kind : TokenKind} (starts : Starts kind c)
    (blank : isBlank c = true) : kind = .unknown := by
  have named (name : isNameChar c = true) : kind = .unknown := by
    rw [not_isBlank_of_isNameChar name] at blank
    cases blank
  cases kind with
  | unknown => rfl
  | keyword k => exact named (isNameChar_of_start (Bool.or_eq_true_iff.2 (.inl starts)))
  | identifier => exact named (isNameChar_of_start starts)
  | integer => exact named (isNameChar_of_isDigit starts)
  | symbol s =>
    rw [not_isBlank_of_symbol s c (List.mem_of_mem_head? starts)] at blank
    cases blank
  | float =>
    rcases starts with digit | rfl
    · exact named (isNameChar_of_isDigit digit)
    · cases blank
  | hex | octal | binary | text =>
    obtain rfl : c = _ := starts
    cases blank

theorem reads_blank (blank : isBlank c = true) (black : isGap c = false) (rest : List Char) :
    Reads .unknown [c] rest := by
  have only (other : TokenKind) {w : List Char} (begins : w <+: c :: rest)
      (matched : other.pattern.Matches w) : other = .unknown :=
    unknown_of_blank (starts_of_begins matched begins) blank
  refine .longest (Pattern.matches_one.2 ⟨c, rfl, ?_⟩) (fun other w begins matched => ?_)
    fun other matched => .inl (only other (List.prefix_append [c] rest) matched)
  · have name : isNameChar c = false :=
      Bool.eq_false_iff.2 fun name => by simp [not_isBlank_of_isNameChar name] at blank
    have quote : (c == '"') = false := by
      refine beq_eq_false_iff_ne.2 ?_
      rintro rfl
      cases blank
    simp [black, name, quote]
  · obtain rfl := only other begins matched
    exact Nat.le_of_eq (length_of_matches_unknown matched)

theorem Laid.snoc (laid : Laid start cs ts) (blank : isBlank c = true) :
    ∃ front a b, ts = front ++ a ∧ Laid start (cs ++ [c]) (front ++ b) ∧
      ∀ t ∈ a ++ b, t.kind = .unknown := by
  induction laid with
  | @done start gap white =>
    by_cases inGap : isGap c = true
    · refine ⟨[], [], [], rfl, .done start ?_, by simp⟩
      simpa [or_imp, forall_and] using ⟨white, inGap⟩
    · have reads := reads_blank blank (Bool.eq_false_iff.2 inGap) []
      exact ⟨[], [], _, rfl, .token white reads (.done _ (by simp)), by simp⟩
  | @token start gap text rest kind ts white reads later ih =>
    rw [List.append_assoc, List.append_assoc]
    rcases reads.snoc blank with longer | ⟨rfl, rfl, longer⟩
    · obtain ⟨front, a, b, rfl, laid, unknown⟩ := ih
      exact ⟨_ :: front, a, b, rfl, .token white longer laid, unknown⟩
    · -- the quote takes in the blank, and no token follows it
      have absent : ts = [] := later.unique (.done _ (by simp)) rfl
      have laid := Laid.token white longer (.ended (start + byteSize gap + _))
      rw [List.append_nil] at laid
      exact ⟨[], _, _, rfl, laid, by simp [absent]⟩

theorem Laid.cons (laid : Laid start cs ts) (blank : isBlank c = true) :
    ∃ start' front ts', Laid start' (c :: cs) (front ++ ts') ∧ (∀ t ∈ front, t.kind = .unknown) ∧
      wording ts' = wording ts := by
  by_cases inGap : isGap c = true
  · cases laid with
    | done _ white =>
      exact ⟨0, [], [], .done 0 (List.forall_mem_cons.2 ⟨inGap, white⟩), by simp, rfl⟩
    | @token _ gap text rest kind ts white reads later =>
      have moved : Laid (start + byteSize (c :: gap) + byteSize text) rest
          (ts.map (Token.later c.utf8Size)) := by
        simpa only [byteSize, Nat.add_left_comm, Nat.add_assoc] using later.later c.utf8Size
      have laid := Laid.token (List.forall_mem_cons.2 ⟨inGap, white⟩) reads moved
      exact ⟨_, [], _, laid, by simp, congrArg (_ :: ·) (wording_later _ ts)⟩
  · have reads := reads_blank blank (Bool.eq_false_iff.2 inGap) cs
    have rest := (laid_ofLine (String.ofList cs)).later (byteSize [c])
    rw [String.toList_ofList, Nat.add_zero] at rest
    refine ⟨0, [_], _, .bare 0 reads (by simpa using rest), by simp, ?_⟩
    rw [wording_later, laid.wording_eq]

/-- What is seen of tokens does not depend on those of no known kind at their ends. -/
structure Central {β : Type} (look : List (TokenKind × String) → β) : Prop where
  first (text : String) (ws : List (TokenKind × String)) : look ((.unknown, text) :: ws) = look ws
  last (text : String) (ws : List (TokenKind × String)) : look (ws ++ [(.unknown, text)]) = look ws

namespace Central

variable {β : Type} {look : List (TokenKind × String) → β} (central : Central look)

include central

theorem front {front : List Token} (unknown : ∀ t ∈ front, t.kind = .unknown) (ts : List Token) :
    look (wording (front ++ ts)) = look (wording ts) := by
  induction front with
  | nil => rfl
  | cons t front ih =>
    obtain ⟨here, later⟩ := List.forall_mem_cons.1 unknown
    rw [List.cons_append, wording, List.map_cons, here, central.first]
    exact ih later

theorem back (ts : List Token) {back : List Token} (unknown : ∀ t ∈ back, t.kind = .unknown) :
    look (wording (ts ++ back)) = look (wording ts) := by
  induction back generalizing ts with
  | nil => rw [List.append_nil]
  | cons t back ih =>
    obtain ⟨here, later⟩ := List.forall_mem_cons.1 unknown
    have one : look (wording (ts ++ [t])) = look (wording ts) := by
      rw [wording, List.map_append, List.map_singleton, here, central.last]
      rfl
    rw [List.append_cons, ih _ later, one]

theorem dropBlanks (cs : List Char) :
    look (wording (ofLine (String.ofList (dropBlanks cs)))) =
      look (wording (ofLine (String.ofList cs))) := by
  induction cs with
  | nil => rfl
  | cons c cs ih =>
    by_cases blank : isBlank c = true
    · obtain ⟨_, front, _, laid, unknown, same⟩ :=
        (laid_ofLine (String.ofList cs)).cons blank
      rw [String.toList_ofList] at laid
      rw [Text.dropBlanks, List.dropWhile_cons_of_pos blank, ← laid.wording_eq,
        central.front unknown, same]
      exact ih
    · rw [Text.dropBlanks, List.dropWhile_cons_of_neg blank]

theorem dropBlanksEnd (cs : List Char) :
    look (wording (ofLine (String.ofList (Text.dropBlanksEnd cs)))) =
      look (wording (ofLine (String.ofList cs))) := by
  have reversed (back : List Char) :
      look (wording (ofLine (String.ofList (Text.dropBlanks back).reverse))) =
        look (wording (ofLine (String.ofList back.reverse))) := by
    induction back with
    | nil => rfl
    | cons c back ih =>
      by_cases blank : isBlank c = true
      · obtain ⟨front, a, b, eq, laid, unknown⟩ :=
          (laid_ofLine (String.ofList back.reverse)).snoc blank
        obtain ⟨before, after⟩ := List.forall_mem_append.1 unknown
        rw [String.toList_ofList] at laid
        rw [Text.dropBlanks, List.dropWhile_cons_of_pos blank, List.reverse_cons,
          ← laid.wording_eq, central.back front after, ← central.back front before, ← eq]
        exact ih
      · rw [Text.dropBlanks, List.dropWhile_cons_of_neg blank]
  rw [Text.dropBlanksEnd, reversed, List.reverse_reverse]

theorem trim (text : String) :
    look (wording (ofLine (trim text))) = look (wording (ofLine text)) := by
  rw [Text.trim, central.dropBlanksEnd, central.dropBlanks, String.ofList_toList]

theorem trim_slice {ts : List Token} (inside : ts <:+: ofLine line) :
    look (wording (ofLine (Text.trim (slice ts)))) = look (wording ts) := by
  rw [central.trim]
  cases ts with
  | nil => rfl
  | cons t ts =>
    have relexed := congrArg wording (ofLine_slice inside)
    rw [wording_later] at relexed
    exact congrArg look relexed

end Central

theorem known_trim_slice {ts : List Token} (inside : ts <:+: ofLine line) :
    known (ofLine (trim (slice ts))) = known ts := by
  have central : Central fun ws => (ws.map Prod.fst).filter (· != .unknown) :=
    ⟨fun _ _ => rfl, fun _ _ => by simp⟩
  have seen := central.trim_slice inside
  simp only [wording, List.map_map] at seen
  exact seen

def depth? : Nat → List Nesting → Option Nat
  | depth, [] => some depth
  | depth, .opens :: rest => depth? (depth + 1) rest
  | 0, .closes :: _ => none
  | depth + 1, .closes :: rest => depth? depth rest
  | depth, .flat :: rest => depth? depth rest

def Balanced (ts : List Token) : Prop := depth? 0 (ts.map nesting) = some 0

instance (ts : List Token) : Decidable (Balanced ts) :=
  inferInstanceAs (Decidable (depth? 0 (ts.map nesting) = some 0))

theorem depth?_known (depth : Nat) (ts : List Token) :
    depth? depth ((known ts).map fun kind => nesting ⟨kind, "", "", 0⟩) =
      depth? depth (ts.map nesting) := by
  induction ts generalizing depth with
  | nil => rfl
  | cons t ts ih =>
    rw [known_cons, List.map_cons]
    split
    · rename_i unknown
      have flat : t.nesting = .flat := by rw [nesting, unknown]
      rw [ih, flat, depth?]
    · rw [List.map_cons, show nesting ⟨t.kind, "", "", 0⟩ = t.nesting from rfl]
      cases t.nesting <;> cases depth <;> simp [depth?, ih]

theorem balanced_iff_known {ts : List Token} :
    Balanced ts ↔ depth? 0 ((known ts).map fun kind => nesting ⟨kind, "", "", 0⟩) = some 0 := by
  rw [Balanced, depth?_known]

theorem balanced_trim_slice {ts : List Token} (inside : ts <:+: ofLine line)
    (balanced : Balanced ts) : Balanced (ofLine (trim (slice ts))) := by
  rw [balanced_iff_known, known_trim_slice inside, ← balanced_iff_known]
  exact balanced

def IsScoped : List Token → Bool
  | [t] => t.isWord
  | t :: colons :: rest => t.isWord && colons.kind == .symbol .doubleColon && IsScoped rest
  | [] => false

theorem word_chars {kind : TokenKind} (word : kind.isWord = true)
    (matched : kind.pattern.Matches w) : ∀ c ∈ w, isNameChar c = true ∨ c = '$' := by
  cases kind with
  | keyword k =>
    intro c mem
    exact .inl (isNameChar_of_start
      (Bool.or_eq_true_iff.2 (.inl ((keyword_chars matched).2 c mem))))
  | identifier =>
    obtain ⟨d, b, e, rfl, start, names, suffix⟩ := matches_identifier.1 matched
    intro c mem
    rcases List.mem_cons.1 mem with rfl | tail
    · exact .inl (isNameChar_of_start start)
    · rcases List.mem_append.1 tail with name | dollar
      · exact .inl (names c name)
      · rcases suffix with rfl | rfl
        · exact .inr (List.mem_singleton.1 dollar)
        · cases dollar
  | _ => cases word

theorem starts_word {kind : TokenKind} (word : kind.isWord = true) (starts : Starts kind c) :
    (c.isAlpha || c == '_') = true := by
  cases kind with
  | keyword k => exact Bool.or_eq_true_iff.2 (.inl starts)
  | identifier => exact starts
  | _ => cases word

theorem reads_word_before {kind : TokenKind} {text : List Char} (word : kind.isWord = true)
    (reads : Reads kind text rest) (apart : (isNameChar c || c == '$') = false)
    (after : List Char) : Reads kind text (c :: after) := by
  cases reads with
  | unclosed unknown =>
    subst unknown
    cases word
  | longest matched longest preferred =>
    refine .longest matched (fun other longer begins matched' => ?_) preferred
    obtain ⟨first, more, rfl, starts⟩ := starts_of_matches matched
    have otherStarts : Starts other first := starts_of_begins matched' begins
    have otherWord : other.isWord = true := by
      rcases word_of_starts (starts_word word starts) otherStarts with ⟨k, rfl⟩ | rfl <;> rfl
    -- a longer word would have the character in it
    refine Nat.le_of_not_lt fun long => ?_
    have inside : c ∈ longer := by
      rw [List.prefix_iff_eq_take.1 begins, List.take_append]
      refine List.mem_append_right _ ?_
      obtain ⟨n, eq⟩ := Nat.exists_eq_add_of_lt long
      rw [show longer.length - (first :: more).length = n + 1 by omega]
      exact List.mem_cons_self
    rcases word_chars otherWord matched' c inside with name | rfl
    · simp [name] at apart
    · cases apart

theorem reads_of_scan {c : Char} {more after : List Char} {kind : TokenKind}
    (black : isGap c = false) (found : scan c (more ++ after) = (kind, (c :: more).length)) :
    Reads kind (c :: more) after := by
  obtain ⟨text, rest, split, length, reads⟩ := finds_scan (more ++ after) black
  rw [found] at length reads
  rw [← List.cons_append] at split
  obtain ⟨rfl, rfl⟩ := List.append_inj split length
  exact reads

theorem reads_doubleColon (after : List Char) : Reads (.symbol .doubleColon) [':', ':'] after :=
  reads_of_scan (by decide) rfl

def scopedChars (first : Token) (parts : List Token) : List Char :=
  first.text.toList ++ parts.flatMap fun t => [':', ':'] ++ t.text.toList

theorem laid_scoped {first : Token} {parts : List Token}
    (words : ∀ t ∈ first :: parts, t ∈ ofLine line ∧ t.isWord = true) (start : Nat) :
    ∃ ts, Laid start (scopedChars first parts) ts ∧ IsScoped ts = true := by
  induction parts generalizing first start with
  | nil =>
    obtain ⟨mem, word⟩ := words first List.mem_cons_self
    obtain ⟨_, rest, -, -, reads⟩ := (laid_ofLine line).reads first mem
    exact ⟨_, .bare start (reads.cut List.nil_prefix) (.ended _), word⟩
  | cons part parts ih =>
    obtain ⟨⟨mem, word⟩, others⟩ := List.forall_mem_cons.1 words
    obtain ⟨_, rest, -, -, reads⟩ := (laid_ofLine line).reads first mem
    obtain ⟨ts, laid, joined⟩ :=
      ih others (start + byteSize first.text.toList + byteSize [':', ':'])
    have colons := Laid.bare _ (reads_doubleColon (scopedChars part parts)) laid
    have whole := Laid.bare start (reads_word_before word reads (by decide) _) colons
    refine ⟨_, by simpa [scopedChars] using whole, ?_⟩
    have isWord : first.kind.isWord = true := word
    simp [IsScoped, isWord, Token.isWord, joined]

theorem toList_joined (first : String) (parts : List Token) :
    (parts.foldl (fun text t => text ++ "::" ++ t.text) first).toList =
      first.toList ++ parts.flatMap fun t => [':', ':'] ++ t.text.toList := by
  induction parts generalizing first with
  | nil => simp
  | cons t parts ih => simp [ih]

theorem isScoped_joined {first : Token} {parts : List Token}
    (words : ∀ t ∈ first :: parts, t ∈ ofLine line ∧ t.isWord = true) :
    IsScoped (ofLine (parts.foldl (fun text t => text ++ "::" ++ t.text) first.text)) = true := by
  obtain ⟨ts, laid, joined⟩ := laid_scoped words 0
  have scanned := laid_ofLine (parts.foldl (fun text t => text ++ "::" ++ t.text) first.text)
  rw [toList_joined] at scanned
  rwa [scanned.unique laid rfl]

end BasicSketch.Token
