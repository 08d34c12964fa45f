import BasicSketch.Proofs.Flat
import BasicSketch.Proofs.Trimming

set_option autoImplicit false

/-! The regions of a line of C++: code, literals and comments. -/

namespace BasicSketch.Cpp

open Text

inductive Region where
  | code
  | slash
  | literal (quote : Char)
  | escape (quote : Char)
  | comment
  | block
  | star
  deriving DecidableEq, Repr

namespace Region

def enter (c : Char) : Region :=
  if c == '/' then .slash else if c == '\x22' || c == '\x27' then .literal c else .code

def next : Region → Char → Region
  | .code, c => enter c
  | .slash, c => if c == '/' then .comment else if c == '*' then .block else enter c
  | .literal quote, c =>
    if c == quote then .code else if c == '\\' then .escape quote else .literal quote
  | .escape quote, _ => .literal quote
  | .comment, _ => .comment
  | .block, c => if c == '*' then .star else .block
  | .star, c => if c == '/' then .code else if c == '*' then .star else .block

def after (r : Region) (cs : List Char) : Region := cs.foldl next r

@[simp] theorem after_nil (r : Region) : r.after [] = r := rfl

@[simp] theorem after_cons (r : Region) (c : Char) (cs : List Char) :
    r.after (c :: cs) = (r.next c).after cs := rfl

@[simp] theorem after_append (r : Region) (a b : List Char) :
    r.after (a ++ b) = (r.after a).after b := List.foldl_append ..

theorem after_comment (cs : List Char) : comment.after cs = .comment := by
  induction cs with
  | nil => rfl
  | cons c cs ih => exact ih

variable {c : Char} {r : Region}

theorem enter_blank (blank : isBlank c = true) : enter c = .code := by
  have other (d : Char) (dark : isBlank d = false) : (c == d) = false := by
    refine beq_eq_false_iff_ne.2 ?_
    rintro rfl
    rw [blank] at dark
    cases dark
  rw [enter, other '/' (by decide), other '\x22' (by decide), other '\x27' (by decide)]
  rfl

theorem after_blanks {cs : List Char} (blank : ∀ c ∈ cs, isBlank c = true) :
    code.after cs = .code := by
  induction cs with
  | nil => rfl
  | cons c cs ih =>
    obtain ⟨here, later⟩ := List.forall_mem_cons.1 blank
    rw [after_cons, next, enter_blank here]
    exact ih later

theorem comment_of_blank (blank : isBlank c = true) (comment : r.next c = .comment) :
    r = .comment := by
  have slash : (c == '/') = false := by
    refine beq_eq_false_iff_ne.2 ?_
    rintro rfl
    cases blank
  have entered := enter_blank blank
  cases r with
  | comment => rfl
  | code => rw [next, entered] at comment; cases comment
  | slash =>
    rw [next, slash, entered, if_neg Bool.false_ne_true] at comment
    split at comment <;> cases comment
  | literal | block | star =>
    rw [next] at comment
    repeat' split at comment
    all_goals cases comment
  | escape => cases comment

theorem comment_of_blanks {cs : List Char} (blank : ∀ c ∈ cs, isBlank c = true)
    (comment : r.after cs = .comment) : r = .comment := by
  induction cs generalizing r with
  | nil => exact comment
  | cons c cs ih =>
    obtain ⟨here, later⟩ := List.forall_mem_cons.1 blank
    exact comment_of_blank here (ih later comment)

end Region

/-- The text begins and ends in code, with or without the blanks at its end. -/
def Contained (text : String) : Prop :=
  Region.code.after text.toList = .code ∧ Region.code.after (dropBlanksEnd text.toList) = .code

instance (text : String) : Decidable (Contained text) :=
  inferInstanceAs (Decidable (_ ∧ _))

def LeadsOperand (text : String) : Prop := LeadsCode text ∧ text.toList.head? ≠ some '*'

instance (text : String) : Decidable (LeadsOperand text) :=
  inferInstanceAs (Decidable (_ ∧ _))

variable {cs : List Char} {a text : String}

theorem contained_ofList
    (contained : Region.code.after cs = .code ∧ Region.code.after (dropBlanksEnd cs) = .code) :
    Contained (String.ofList cs) := by
  simpa [Contained] using contained

variable {b : String} {gap : List Char} {parts : List String} {c : Char}

theorem Contained.append (first : Contained a) (second : Contained b) : Contained (a ++ b) := by
  rw [Contained, String.toList_append, Region.after_append, first.1]
  refine ⟨second.1, ?_⟩
  by_cases blank : dropBlanksEnd b.toList = []
  · obtain ⟨gap, white, whole⟩ := exists_blanks_end b.toList
    rw [blank, List.nil_append] at whole
    rw [← whole, dropBlanksEnd_append white]
    exact first.2
  · rw [dropBlanksEnd_append_of_ne_nil _ blank, Region.after_append, first.1]
    exact second.2

theorem Contained.trim (contained : Contained text) : Contained (Text.trim text) := by
  obtain ⟨gap, white, front⟩ := exists_blanks_front text.toList
  have inside : Region.code.after (dropBlanksEnd (dropBlanks text.toList)) = .code := by
    by_cases absent : dropBlanksEnd (dropBlanks text.toList) = []
    · rw [absent]
      rfl
    · have ends := contained.2
      rw [← front, dropBlanksEnd_append_of_ne_nil gap absent, Region.after_append,
        Region.after_blanks white] at ends
      exact ends
  rw [Contained, toList_trim, dropBlanksEnd_dropBlanksEnd]
  exact ⟨inside, inside⟩

theorem contained_empty : Contained "" := by decide

theorem contained_blanks (white : ∀ c ∈ gap, isBlank c = true) : Contained (String.ofList gap) := by
  have absent : dropBlanksEnd gap = [] := @dropBlanksEnd_append [] gap white
  exact contained_ofList ⟨Region.after_blanks white, by rw [absent]; rfl⟩

def isUnmarked (c : Char) : Bool := c != '/' && c != '\x22' && c != '\x27'

theorem after_unmarked (unmarked : ∀ c ∈ cs, isUnmarked c = true) :
    Region.code.after cs = .code := by
  induction cs with
  | nil => rfl
  | cons c cs ih =>
    obtain ⟨here, later⟩ := List.forall_mem_cons.1 unmarked
    have entered : Region.enter c = .code := by
      simp only [isUnmarked, Bool.and_eq_true, bne_iff_ne] at here
      simp [Region.enter, here]
    rw [Region.after_cons, Region.next, entered]
    exact ih later

theorem contained_of_unmarked (unmarked : ∀ c ∈ text.toList, isUnmarked c = true) :
    Contained text := by
  refine ⟨after_unmarked unmarked, after_unmarked fun c mem => unmarked c ?_⟩
  rw [dropBlanksEnd, List.mem_reverse] at mem
  exact List.mem_reverse.1 ((List.dropWhile_suffix _).subset mem)

theorem isUnmarked_of_isNameChar (name : isNameChar c = true) : isUnmarked c = true := by
  have other (d : Char) (mark : isNameChar d = false) : c ≠ d := by
    rintro rfl
    rw [name] at mark
    cases mark
  simp [isUnmarked, other '/' (by decide), other '\x22' (by decide), other '\x27' (by decide)]

theorem contained_nat (n : Nat) : Contained (toString n) :=
  contained_of_unmarked fun c mem => isUnmarked_of_isNameChar (by
    simp [isNameChar, Char.isAlphanum, isDigit_of_mem_nat n c mem])

theorem LeadsOperand.append (leads : LeadsOperand a) (b : String) : LeadsOperand (a ++ b) := by
  refine ⟨leadsCode_append b leads.1, ?_⟩
  have other := leads.2
  cases eq : a.toList with
  | nil => exact absurd leads.1 (by simp [LeadsCode, eq])
  | cons c rest => simpa [eq] using other

theorem LeadsOperand.trim (leads : LeadsOperand text) : LeadsOperand (Text.trim text) :=
  ⟨leadsCode_trim leads.1, by rw [head?_trim leads.1]; exact leads.2⟩

theorem leadsOperand_ofList
    (leads : cs.head?.any (fun c => !isBlank c && c != '/') = true ∧ cs.head? ≠ some '*') :
    LeadsOperand (String.ofList cs) := by
  simpa [LeadsOperand, LeadsCode] using leads

theorem leadsOperand_of_named (named : Named text) : LeadsOperand text := by
  refine ⟨leadsCode_of_named named, fun star => ?_⟩
  simp [Named, star] at named

theorem after_slash (head : cs.head? = some c) (slash : c ≠ '/') (star : c ≠ '*') :
    Region.slash.after cs = Region.code.after cs := by
  obtain ⟨rest, rfl⟩ := List.head?_eq_some_iff.1 head
  simp [Region.next, slash, star]

theorem contained_slash {operand : String} (white : ∀ c ∈ gap, isBlank c = true)
    (contained : Contained operand) (leads : LeadsOperand operand) :
    Contained ("/" ++ (String.ofList gap ++ operand)) := by
  obtain ⟨c, head, leading⟩ := (Option.any_eq_true _ _).1 leads.1
  obtain ⟨dark, slash⟩ : isBlank c = false ∧ c ≠ '/' := by simpa using leading
  have star : c ≠ '*' := fun same => leads.2 (same ▸ head)
  -- what follows the slash begins with white space or like the operand
  have begins (cs : List Char) (same : cs.head? = some c) :
      Region.slash.after (gap ++ cs) = Region.code.after cs := by
    cases gap with
    | nil => exact after_slash same slash star
    | cons b gap =>
      have blank : isBlank b = true := white b List.mem_cons_self
      have first : (b :: gap ++ cs).head? = some b := rfl
      rw [after_slash first (by rintro rfl; cases blank) (by rintro rfl; cases blank),
        Region.after_append, Region.after_blanks white]
  obtain ⟨rest, eq⟩ := List.head?_eq_some_iff.1 head
  obtain ⟨more, ended⟩ := dropBlanksEnd_cons rest dark
  have whole : ("/" ++ (String.ofList gap ++ operand)).toList =
      ['/'] ++ (gap ++ operand.toList) := by
    simp
  have shorter : dropBlanksEnd operand.toList ≠ [] := by
    rw [eq, ended]
    exact List.cons_ne_nil c more
  refine ⟨?_, ?_⟩
  · rw [whole, Region.after_append]
    exact (begins _ head).trans contained.1
  · rw [whole, ← List.append_assoc, dropBlanksEnd_append_of_ne_nil _ shorter, List.append_assoc,
      Region.after_append]
    exact (begins _ (by rw [eq, ended]; rfl)).trans contained.2

def EndsInComment (text : String) : Prop := Region.code.after text.toList = .comment

instance (text : String) : Decidable (EndsInComment text) :=
  inferInstanceAs (Decidable (_ = _))

theorem EndsInComment.append (comment : EndsInComment a) (b : String) : EndsInComment (a ++ b) := by
  rw [EndsInComment, String.toList_append, Region.after_append,
    show Region.code.after a.toList = .comment from comment, Region.after_comment]

theorem EndsInComment.behind (comment : EndsInComment b) (contained : Contained a) :
    EndsInComment (a ++ b) := by
  rw [EndsInComment, String.toList_append, Region.after_append, contained.1]
  exact comment

theorem EndsInComment.trim (comment : EndsInComment text) : EndsInComment (Text.trim text) := by
  obtain ⟨gap, white, front⟩ := exists_blanks_front text.toList
  obtain ⟨gap', white', ending⟩ := exists_blanks_end (dropBlanks text.toList)
  have whole : Region.code.after text.toList = .comment := comment
  rw [← front, Region.after_append, Region.after_blanks white, ← ending,
    Region.after_append] at whole
  rw [EndsInComment, toList_trim]
  exact Region.comment_of_blanks white' whole

end BasicSketch.Cpp
