import BasicSketch.Lint.Fix
import BasicSketch.Proofs.LineCuts
import BasicSketch.Proofs.MarkedLine
import Mathlib.Data.List.DropRight

set_option autoImplicit false

/-! What the linter sees on a line. -/

namespace BasicSketch

open Text

variable {c : Char}

theorem Text.exists_chomped (cs : List Char) :
    ∃ gap, (∀ c ∈ gap, isBlank c = true) ∧ chomp cs ++ gap = cs := by
  fun_induction chomp cs with
  | case1 => exact ⟨[], by simp, rfl⟩
  | case2 => exact ⟨['\r'], List.all_eq_true.1 rfl, rfl⟩
  | case3 c rest other ih =>
    obtain ⟨gap, white, eq⟩ := ih
    exact ⟨gap, white, by rw [List.cons_append, eq]⟩

namespace LogicalLine

theorem not_isRemarkNeighbour_of_isBlank (blank : isBlank c = true) :
    isRemarkNeighbour c = false := by
  refine Bool.eq_false_iff.2 fun neighbour => ?_
  rcases Bool.or_eq_true_iff.1 neighbour with name | dollar
  · simp [Token.not_isBlank_of_isNameChar name] at blank
  · obtain rfl := beq_iff_eq.1 dollar
    cases blank

theorem startsRemark_snoc (blank : isBlank c = true) (cs : List Char) :
    startsRemark (cs ++ [c]) = startsRemark cs := by
  have apart := not_isRemarkNeighbour_of_isBlank blank
  have other : (c.toLower == 'm') = false := by
    refine beq_eq_false_iff_ne.2 fun same => ?_
    have caseless := caseless_isBlank c
    rw [same, blank] at caseless
    cases caseless
  match cs with
  | [] | [_] | _ :: _ :: _ :: _ :: _ => rfl
  | [_, _] => simp [startsRemark, other]
  | [_, _, _] => simp [startsRemark, apart]

theorem beforeComment_snoc (blank : isBlank c = true) (quoted inWord : Bool) (cs : List Char) :
    beforeComment quoted inWord (cs ++ [c]) = beforeComment quoted inWord cs ∨
      beforeComment quoted inWord (cs ++ [c]) = beforeComment quoted inWord cs ++ [c] := by
  induction cs generalizing quoted inWord with
  | nil =>
    have plain : c ≠ '"' ∧ c ≠ '\x27' := by constructor <;> rintro rfl <;> cases blank
    simp [beforeComment, plain, startsRemark]
  | cons d rest ih =>
    have same := startsRemark_snoc blank (d :: rest)
    rw [List.cons_append] at same
    rw [List.cons_append, beforeComment, beforeComment, same]
    split
    · exact (ih _ _).imp (congrArg _) (congrArg _)
    split
    · exact .inl rfl
    · exact (ih _ _).imp (congrArg _) (congrArg _)

end LogicalLine

open LogicalLine

namespace Lint

/-- The tokens of a line without those of no known kind at its end. -/
def core (ts : List Token) : List Token := ts.rdropWhile (·.kind == .unknown)

theorem core_append (ts : List Token) {a : List Token} (unknown : ∀ t ∈ a, t.kind = .unknown) :
    core (ts ++ a) = core ts := by
  have all : ∀ t ∈ a.reverse, (t.kind == .unknown) = true := by simpa using unknown
  rw [core, List.rdropWhile, List.reverse_append, List.dropWhile_append_of_pos all]
  rfl

theorem exists_core (ts : List Token) : ∃ a, ts = core ts ++ a ∧ ∀ t ∈ a, t.kind = .unknown := by
  refine ⟨ts.rtakeWhile (·.kind == .unknown), ?_, fun t mem => ?_⟩
  · exact List.rdropWhile_append_rtakeWhile.symm
  · simpa using List.mem_rtakeWhile_imp mem

theorem codeTokens_ofList (cs : List Char) :
    codeTokens (String.ofList cs) =
      Token.ofLine (String.ofList (beforeComment false false cs)) := by
  rw [codeTokens, stripComment, String.toList_ofList]

theorem core_snoc (blank : isBlank c = true) (cs : List Char) :
    core (codeTokens (String.ofList (cs ++ [c]))) = core (codeTokens (String.ofList cs)) := by
  rw [codeTokens_ofList, codeTokens_ofList]
  rcases beforeComment_snoc blank false false cs with same | longer
  · rw [same]
  · obtain ⟨front, a, b, eq, laid, unknown⟩ :=
      (Token.laid_ofLine (String.ofList (beforeComment false false cs))).snoc blank
    obtain ⟨before, after⟩ := List.forall_mem_append.1 unknown
    have tokens := (Token.laid_ofLine (String.ofList (beforeComment false false cs ++ [c]))).unique
      laid (by simp)
    rw [longer, tokens, eq, core_append front before, core_append front after]

theorem core_gap {gap : List Char} (white : ∀ c ∈ gap, isBlank c = true) (cs : List Char) :
    core (codeTokens (String.ofList (cs ++ gap))) = core (codeTokens (String.ofList cs)) := by
  induction gap generalizing cs with
  | nil => rw [List.append_nil]
  | cons c more ih =>
    obtain ⟨blank, others⟩ := List.forall_mem_cons.1 white
    rw [List.append_cons, ih others, core_snoc blank]

theorem core_dropBlanksEnd (cs : List Char) :
    core (codeTokens (String.ofList (dropBlanksEnd cs))) =
      core (codeTokens (String.ofList cs)) := by
  obtain ⟨gap, white, eq⟩ := exists_blanks_end cs
  rw [← core_gap white, eq]

theorem core_physical (line : String) :
    core (codeTokens (physical line)) = core (codeTokens line) := by
  obtain ⟨gap, white, eq⟩ := exists_chomped line.toList
  rw [physical, ← core_gap white, eq, String.ofList_toList]

theorem isNamed_of_unknown {t : Token} (unknown : t.kind = .unknown) (name : String) :
    t.isNamed name = false := by
  rw [Token.isNamed, Token.isWord, unknown]
  rfl

theorem findSome?_pairs_append {α : Type} {look : Token × Token → Option α}
    (behind : ∀ s t, t.kind = .unknown → look (s, t) = none) (ts : List Token) {a : List Token}
    (unknown : ∀ t ∈ a, t.kind = .unknown) :
    ((ts ++ a).zip (ts ++ a).tail).findSome? look = (ts.zip ts.tail).findSome? look := by
  have ends (s : List Token) : (s.zip a).findSome? look = none := by
    rw [List.findSome?_eq_none_iff]
    exact fun p mem => behind p.1 p.2 (unknown p.2 (List.of_mem_zip mem).2)
  induction ts with
  | nil =>
    rw [List.nil_append, List.findSome?_eq_none_iff.2]
    · rfl
    · exact fun p mem => behind p.1 p.2 (unknown p.2 (List.mem_of_mem_tail (List.of_mem_zip mem).2))
  | cons t rest ih =>
    cases rest with
    | nil => exact ends (t :: a)
    | cons u more =>
      simp only [List.cons_append, List.tail_cons, List.zip_cons_cons, List.findSome?_cons] at ih ⊢
      rw [ih]

theorem findSome?_pairs_core {α : Type} {look : Token × Token → Option α}
    (behind : ∀ s t, t.kind = .unknown → look (s, t) = none) (ts : List Token) :
    ((core ts).zip (core ts).tail).findSome? look = (ts.zip ts.tail).findSome? look := by
  obtain ⟨a, eq, unknown⟩ := exists_core ts
  have same := findSome?_pairs_append behind (core ts) unknown
  rw [← eq] at same
  exact same.symm

theorem nameAfter?_core (word : String) (ts : List Token) :
    nameAfter? word (core ts) = nameAfter? word ts :=
  findSome?_pairs_core (fun s t unknown => by simp [unknown]) ts

theorem delay?_core (ts : List Token) : delay? (core ts) = delay? ts :=
  findSome?_pairs_core (fun s t unknown => by simp [unknown]) ts

theorem startsDebugDraw_append (t : Token) (ts : List Token) {a : List Token}
    (unknown : ∀ t ∈ a, t.kind = .unknown) :
    startsDebugDraw (t :: (ts ++ a)) = startsDebugDraw (t :: ts) := by
  match ts, a with
  | _ :: _ :: _, _ | [], [] | [_], [] => simp [startsDebugDraw]
  | [], [u] => simp [startsDebugDraw]
  | [], u :: v :: _ =>
    have dot := unknown u (by simp)
    simp [startsDebugDraw, dot]
  | [_], u :: _ =>
    have method := isNamed_of_unknown (unknown u (by simp)) "fillTriangle"
    simp [startsDebugDraw, method]

theorem debugDraw?_append (ts : List Token) {a : List Token}
    (unknown : ∀ t ∈ a, t.kind = .unknown) : debugDraw? (ts ++ a) = debugDraw? ts := by
  induction ts with
  | nil =>
    rw [List.nil_append]
    induction a with
    | nil => rfl
    | cons u more ih =>
      obtain ⟨here, there⟩ := List.forall_mem_cons.1 unknown
      have other : startsDebugDraw (u :: more) = false :=
        (startsDebugDraw_append u [] there).trans (isNamed_of_unknown here _)
      simp only [debugDraw?, other, if_neg Bool.false_ne_true]
      exact ih there
  | cons t rest ih =>
    rw [List.cons_append, debugDraw?, debugDraw?, startsDebugDraw_append t rest unknown, ih]

theorem debugDraw?_core (ts : List Token) : debugDraw? (core ts) = debugDraw? ts := by
  obtain ⟨a, eq, unknown⟩ := exists_core ts
  have same := debugDraw?_append (core ts) unknown
  rw [← eq] at same
  exact same.symm

def wordedName? (word : String) (ws : List (TokenKind × String)) : Option String :=
  (ws.zip ws.tail).findSome? fun (a, b) =>
    if a.1.isWord && sameWord a.2 word && b.1 == .identifier then some b.2 else none

theorem nameAfter?_eq (word : String) (ts : List Token) :
    nameAfter? word ts = wordedName? word (Token.wording ts) := by
  rw [nameAfter?, wordedName?, Token.wording, ← List.map_tail, List.zip_map, List.findSome?_map]
  rfl

theorem wordedName?_unknown (word text : String) (ws : List (TokenKind × String)) :
    wordedName? word ((.unknown, text) :: ws) = wordedName? word ws := by
  cases ws with
  | nil => rfl
  | cons w more => simp [wordedName?, TokenKind.isWord]

theorem nameAfter?_unknown_append (word : String) {front : List Token}
    (unknown : ∀ t ∈ front, t.kind = .unknown) (ts : List Token) :
    nameAfter? word (front ++ ts) = nameAfter? word ts := by
  induction front with
  | nil => rfl
  | cons u more ih =>
    obtain ⟨here, there⟩ := List.forall_mem_cons.1 unknown
    rw [List.cons_append, nameAfter?_eq, Token.wording, List.map_cons, here, wordedName?_unknown]
    exact (nameAfter?_eq word (more ++ ts)).symm.trans (ih there)

theorem nameAfter?_blank (blank : isBlank c = true) (word : String) (cs : List Char) :
    nameAfter? word (codeTokens (String.ofList (c :: cs))) =
      nameAfter? word (codeTokens (String.ofList cs)) := by
  have inert : isInert c = true := by
    by_contra marked
    have mem : c ∈ marks := by simpa [isInert] using marked
    simp only [marks, List.mem_cons, List.not_mem_nil, or_false] at mem
    rcases mem with rfl | rfl | rfl | rfl <;> cases blank
  have whole := beforeComment_inert (List.forall_mem_singleton.2 inert) false cs
  rw [List.singleton_append, List.singleton_append, wordAfter, List.foldl_cons, List.foldl_nil,
    not_isRemarkNeighbour_of_isBlank blank] at whole
  obtain ⟨_, front, ts, laid, unknown, same⟩ :=
    (Token.laid_ofLine (String.ofList (beforeComment false false cs))).cons blank
  rw [String.toList_ofList] at laid
  rw [codeTokens_ofList, codeTokens_ofList, whole, nameAfter?_eq, ← laid.wording_eq,
    ← nameAfter?_eq, nameAfter?_unknown_append word unknown, nameAfter?_eq, same, ← nameAfter?_eq]

theorem nameAfter?_trim (word line : String) :
    nameAfter? word (codeTokens (trim line)) = nameAfter? word (codeTokens line) := by
  have front (cs : List Char) : nameAfter? word (codeTokens (String.ofList (dropBlanks cs))) =
      nameAfter? word (codeTokens (String.ofList cs)) := by
    induction cs with
    | nil => rfl
    | cons c rest ih =>
      by_cases blank : isBlank c = true
      · rw [nameAfter?_blank blank, ← ih, dropBlanks, List.dropWhile_cons_of_pos blank]
        rfl
      · rw [dropBlanks, List.dropWhile_cons_of_neg blank]
  rw [trim, ← nameAfter?_core, core_dropBlanksEnd, nameAfter?_core, front, String.ofList_toList]

theorem codeTokens_commented (line : String) : codeTokens (Fix.commented line) = [] := by
  rw [codeTokens, stripComment, Fix.commented, String.toList_append]
  rfl

theorem mem_of_mem_codeTokens {line : String} {t : Token} (mem : t ∈ codeTokens line) :
    ∀ c ∈ t.text.toList, c ∈ line.toList := fun c inside =>
  (isPrefix_beforeComment false false line.toList).subset
    (by simpa [stripComment] using Token.mem_of_mem_ofLine mem c inside)

theorem forall_mem_of_all {p : Char → Prop} [DecidablePred p] {cs : List Char}
    (all : cs.all (decide <| p ·) = true) : ∀ c ∈ cs, p c := by
  simpa using all

theorem delay?_of_chars {line : String} (chars : ∀ c ∈ line.toList, c.toLower ≠ 'l') :
    delay? (codeTokens line) = none := by
  rw [delay?, List.findSome?_eq_none_iff]
  rintro ⟨s, t⟩ mem
  have silent : s.isNamed "delay" = false := by
    refine Bool.eq_false_iff.2 fun named => ?_
    have word := (sameWord_iff _ _).1 (Bool.and_eq_true_iff.1 named).2
    have letter : 'l' ∈ (lower s.text).toList := by rw [word]; decide
    obtain ⟨c, inside, same⟩ := List.mem_map.1 ((toList_lower s.text) ▸ letter)
    exact chars c (mem_of_mem_codeTokens (List.of_mem_zip mem).1 c inside) same
  simp [silent]

theorem delay?_every (n : Nat) : delay? (codeTokens s!"Every {n} Do") = none := by
  refine delay?_of_chars ?_
  simp only [toString_text, String.toList_append, List.forall_mem_append]
  refine ⟨⟨forall_mem_of_all rfl, fun c mem same => ?_⟩, forall_mem_of_all rfl⟩
  have digit := caseless_isDigit c
  rw [same, isDigit_of_mem_nat n c mem] at digit
  cases digit

theorem nameAfter?_cons_cons (word : String) (s t : Token) (more : List Token) :
    nameAfter? word (s :: t :: more) =
      if s.isNamed word && t.kind == .identifier then some t.text
      else nameAfter? word (t :: more) := by
  rw [nameAfter?]
  simp only [List.tail_cons, List.zip_cons_cons, List.findSome?_cons]
  split <;> simp_all [nameAfter?]

theorem exists_pair_of_nameAfter? {word name : String} {ts : List Token}
    (found : nameAfter? word ts = some name) :
    ∃ before s t after, ts = before ++ s :: t :: after ∧ s.isNamed word = true ∧
      t.kind = .identifier ∧ t.text = name := by
  induction ts with
  | nil => cases found
  | cons s rest ih =>
    cases rest with
    | nil => cases found
    | cons t more =>
      rw [nameAfter?_cons_cons] at found
      split at found
      · rename_i here
        obtain ⟨named, ident⟩ := Bool.and_eq_true_iff.1 here
        exact ⟨[], s, t, more, rfl, named, beq_iff_eq.1 ident, Option.some.inj found⟩
      · obtain ⟨before, a, b, after, eq, pair⟩ := ih found
        exact ⟨s :: before, a, b, after, by rw [eq]; rfl, pair⟩

end Lint

namespace Token

theorem codeTokens_eq (line : String) :
    Laid 0 (beforeComment false false line.toList) (Lint.codeTokens line) ∧
      uncommented false (Lint.codeTokens line) = Lint.codeTokens line := by
  have kept := (laid_ofLine line).beforeComment false
  have cut := laid_ofLine (stripComment line)
  rw [stripComment, String.toList_ofList] at cut
  refine ⟨cut, ?_⟩
  rw [Lint.codeTokens, stripComment, cut.unique kept rfl, uncommented_uncommented]

theorem not_opensComment {inWord : Bool} {before after : List Token} {t : Token}
    (self : uncommented inWord (before ++ t :: after) = before ++ t :: after) :
    ∃ w, t.opensComment (wordAfter w t.gap.toList) = false := by
  induction before generalizing inWord with
  | nil =>
    rw [List.nil_append, uncommented] at self
    split at self
    · cases self
    · exact ⟨inWord, Bool.eq_false_iff.2 ‹_›⟩
  | cons s before ih =>
    rw [List.cons_append, uncommented] at self
    split at self
    · cases self
    · exact ih (List.cons.inj self).2

theorem gap_between_words {start : Nat} {cs : List Char} {s t : Token} {after : List Token}
    (laid : Laid start cs (s :: t :: after)) (word : s.isWord = true)
    (named : ∀ c ∈ s.text.toList, isNameChar c = true) (ident : t.kind = .identifier) :
    (∀ inWord, wordAfter inWord t.gap.toList = false) ∧ Reads .identifier t.text.toList [] := by
  cases laid with
  | @token _ gap text _ kind _ white reads later =>
  cases later with
  | @token _ gap' text' rest' kind' _ white' reads' later' =>
  obtain rfl : kind' = .identifier := ident
  rw [String.toList_ofList] at named
  refine ⟨fun inWord => ?_, by simpa using reads'.cut List.nil_prefix⟩
  rw [String.toList_ofList]
  rcases List.eq_nil_or_concat gap' with rfl | ⟨front, c, rfl⟩
  rotate_left
  · rw [List.concat_eq_append] at white' ⊢
    rw [wordAfter_append]
    exact not_isRemarkNeighbour_of_isBlank (isBlank_of_isGap (white' c (by simp)))
  -- without a gap the two would be one word
  cases reads with
  | unclosed unknown => simp [Token.isWord, unknown, TokenKind.isWord] at word
  | longest matched longest preferred =>
  cases reads' with
  | unclosed unknown => cases unknown
  | longest matched' =>
    obtain ⟨c, more, rfl, starts⟩ := starts_of_matches matched'
    obtain ⟨x, xs, rfl, begins⟩ := starts_of_matches matched
    have all : ∀ d ∈ xs ++ [c], isNameChar d = true := by
      simp only [List.mem_append, List.mem_singleton]
      rintro d (inside | rfl)
      · exact named d (List.mem_cons_of_mem _ inside)
      · exact isNameChar_of_start starts
    have longer := identifier_matches (starts_word word begins) all (.inr rfl)
    have short := longest .identifier _ ⟨more ++ rest', by simp⟩ longer
    simp only [List.append_nil, List.length_cons, List.length_append, List.length_nil] at short
    omega

end Token

namespace Lint

theorem created_name {line name : String}
    (found : nameAfter? "CREATE_SPRITE" (codeTokens line) = some name) :
    Token.opensComment false ⟨.identifier, " ", name, 14⟩ = false ∧
      Token.Reads .identifier name.toList [] := by
  obtain ⟨before, s, t, after, eq, named, ident, rfl⟩ := exists_pair_of_nameAfter? found
  obtain ⟨word, spelled⟩ := Bool.and_eq_true_iff.1 named
  obtain ⟨laid, self⟩ := Token.codeTokens_eq line
  rw [eq] at laid self
  obtain ⟨start, cs, laid⟩ := laid.drop
  have chars : ∀ c ∈ s.text.toList, isNameChar c = true := by
    intro c mem
    have lowered : c.toLower ∈ (lower "CREATE_SPRITE").toList := by
      rw [← (sameWord_iff _ _).1 spelled, toList_lower]
      exact List.mem_map_of_mem mem
    have all : ∀ d ∈ (lower "CREATE_SPRITE").toList, isNameChar d = true :=
      List.all_eq_true.1 (by decide)
    rw [← caseless_isNameChar c]
    exact all _ lowered
  obtain ⟨gap, reads⟩ := Token.gap_between_words laid word chars ident
  refine ⟨?_, reads⟩
  rw [List.append_cons] at self
  obtain ⟨w, silent⟩ := Token.not_opensComment self
  rw [gap] at silent
  simpa [Token.opensComment, Token.isNamed, Token.isWord, ident] using silent

theorem codeTokens_delete {line name : String}
    (found : nameAfter? "CREATE_SPRITE" (codeTokens line) = some name) :
    codeTokens ("SPRITE_DELETE " ++ name) =
      [⟨.identifier, "", "SPRITE_DELETE", 0⟩, ⟨.identifier, " ", name, 14⟩] := by
  obtain ⟨silent, reads⟩ := created_name found
  have delete : Token.Reads .identifier "SPRITE_DELETE".toList [] :=
    @Token.reads_of_scan 'S' "PRITE_DELETE".toList [] .identifier rfl (by decide +kernel)
  have first := Token.reads_word_before rfl delete (c := ' ') rfl (name.toList ++ [])
  have laid : Token.Laid 0 ("SPRITE_DELETE".toList ++ ([' '] ++ (name.toList ++ [])))
      [⟨.identifier, "", "SPRITE_DELETE", 0⟩, ⟨.identifier, " ", name, 14⟩] := by
    have second := @Token.Laid.token 13 [' '] name.toList [] .identifier []
      (List.all_eq_true.1 rfl) reads
      (.ended _)
    rw [String.ofList_toList] at second
    exact .bare 0 first second
  have chars : ("SPRITE_DELETE " ++ name).toList =
      "SPRITE_DELETE".toList ++ ([' '] ++ (name.toList ++ [])) := by simp
  have uncut : Token.uncommented false
      [⟨.identifier, "", "SPRITE_DELETE", 0⟩, ⟨.identifier, " ", name, 14⟩] =
        [⟨.identifier, "", "SPRITE_DELETE", 0⟩, ⟨.identifier, " ", name, 14⟩] := by
    rw [Token.uncommented, if_neg (by decide), Token.uncommented,
      show wordAfter _ (" " : String).toList = false from rfl, silent]
    rfl
  have cut := Token.laid_ofLine (stripComment ("SPRITE_DELETE " ++ name))
  rw [stripComment, String.toList_ofList, chars] at cut
  rw [codeTokens, stripComment, chars]
  exact cut.unique laid (laid.beforeComment_eq_self uncut)

end Lint

end BasicSketch
