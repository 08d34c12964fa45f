import BasicSketch.Cpp.Expression
import BasicSketch.Proofs.Delimiters

set_option autoImplicit false

/-! The texts of calls and indexes. -/

namespace BasicSketch.Cpp

open Text

theorem mem_of_lookup {α : Type} {table : List (String × α)} {key : String} {a : α}
    (found : table.lookup key = some a) : (key, a) ∈ table := by
  obtain ⟨before, after, rfl, -⟩ := List.lookup_eq_some_iff.1 found
  simp

variable {text : String}

theorem leadsOperand_of_lacksOperators (filled : text.toList.isEmpty = false)
    (plain : lacksOperators text.toList = true) : LeadsOperand text := by
  cases eq : text.toList with
  | nil => simp [eq] at filled
  | cons c rest =>
    rw [eq] at plain
    unfold lacksOperators at plain
    split at plain
    · cases ‹c :: rest = []›
    · obtain ⟨rfl, rfl⟩ := List.cons_eq_cons.1 ‹_ = _›
      simp [LeadsOperand, LeadsCode, eq]
      decide
    · obtain ⟨rfl, rfl⟩ := List.cons_eq_cons.1 ‹_ = _›
      simp only [Bool.and_eq_true, Bool.not_eq_true'] at plain
      have other (d : Char) (operator : isOperatorChar d = true) : c ≠ d := by
        rintro rfl
        simp [operator] at plain
      simp [LeadsOperand, LeadsCode, eq, plain, other '/' (by decide), other '*' (by decide)]

theorem leadsOperand_of_readDigits? {cs : List Char} (number : (readDigits? cs).isSome = true) :
    LeadsOperand (String.ofList cs) := by
  unfold readDigits? at number
  cases cs with
  | nil => simp at number
  | cons c rest =>
    have digit : c.isDigit = true := by
      split at number
      · cases number
      · simp_all
    have name : isNameChar c = true := by simp [isNameChar, Char.isAlphanum, digit]
    refine leadsOperand_ofList ⟨leads_of_isNameChar name, ?_⟩
    rintro ⟨⟩
    cases digit

theorem leadsOperand_of_readSigned? (number : (readSigned? text).isSome = true) :
    LeadsOperand text := by
  obtain ⟨n, found⟩ := Option.isSome_iff_exists.1 number
  have whole : String.ofList text.toList = text := String.ofList_toList
  unfold readSigned? at found
  obtain ⟨found, -⟩ := Option.filter_eq_some_iff.1 found
  split at found
  · rw [← whole, ‹text.toList = _›]
    exact leadsOperand_ofList (by simp; decide)
  · rw [← whole, ‹text.toList = _›]
    exact leadsOperand_ofList (by simp; decide)
  · obtain ⟨m, read, -⟩ := Option.map_eq_some_iff.1 found
    rw [← whole]
    exact leadsOperand_of_readDigits? (by rw [read]; rfl)

theorem leadsOperand_nat (n : Nat) : LeadsOperand (toString n) := by
  have digits := isDigit_of_mem_nat n
  cases eq : (toString n).toList with
  | nil => exact absurd eq (by simp)
  | cons c rest =>
    have digit := digits c (eq ▸ List.mem_cons_self)
    have name : isNameChar c = true := by simp [isNameChar, Char.isAlphanum, digit]
    rw [← String.ofList_toList (s := toString n), eq]
    exact leadsOperand_ofList ⟨leads_of_isNameChar name, by rintro ⟨⟩; cases digit⟩

def isPlain (cs : List Char) : Bool :=
  !cs.contains '\n' && decide (Contained (String.ofList cs))

/-- The text has the property whatever brackets are open, and leaves them open. -/
def Whole (P : List Char → List Char → String → Prop) (a : String) : Prop := ∀ i, P i i a

theorem Whole.here {P : List Char → List Char → String → Prop} {i : List Char} {a : String}
    (whole : Whole P a) : P i i a :=
  whole i

/-- Properties of texts that begin a text and of texts that follow, between the brackets that are
open before and behind. They are kept when texts are put together. -/
structure Spelling (P Q : List Char → List Char → String → Prop) : Prop where
  follows : ∀ {i j : List Char} {a : String}, P i j a → Q i j a
  leads : ∀ {i j : List Char} {a : String}, Q i j a → LeadsOperand a → P i j a
  append : ∀ {i j k : List Char} {a b : String}, P i j a → Q j k b → P i k (a ++ b)
  join : ∀ {i j k : List Char} {a b : String}, Q i j a → Q j k b → Q i k (a ++ b)
  fixed : ∀ {i j : List Char} {a : String}, Flat a → Contained a → Walks i j a → Q i j a
  fill : ∀ {a : String}, Whole Q a → Whole Q (fillText a)

namespace Spelling

variable {P Q : List Char → List Char → String → Prop} (spelling : Spelling P Q)

include spelling

theorem following {a : String} (whole : Whole P a) : Whole Q a :=
  fun _ => spelling.follows whole.here

variable {i j cs : List Char}

theorem literal (plain : isPlain cs = true)
    (walks : cs.foldlM Spot.step (.code, i) = some (.code, j)) : Q i j (String.ofList cs) := by
  obtain ⟨flat, inside⟩ := Bool.and_eq_true_iff.1 plain
  refine spelling.fixed (flat_ofList (by simpa using flat)) (of_decide_eq_true inside) ?_
  rw [Walks, String.toList_ofList, walks]

theorem leading (leads : cs.head?.any (fun c => !isBlank c && c != '/' && c != '*') = true)
    (plain : isPlain cs = true)
    (walks : cs.foldlM Spot.step (.code, i) = some (.code, j)) : P i j (String.ofList cs) := by
  refine spelling.leads (spelling.literal plain walks) (leadsOperand_ofList ?_)
  cases cs with
  | nil => cases leads
  | cons c rest =>
    simp only [List.head?_cons, Option.any_some, Bool.and_eq_true] at leads
    exact ⟨by simpa using leads.1, by simpa using leads.2⟩

variable {a angle : String}

theorem enclosed (inside : Whole Q a) : Whole P ("(" ++ a ++ ")") :=
  fun _ => spelling.append (spelling.append (spelling.leading rfl rfl rfl) inside.here)
    (spelling.literal rfl rfl)

variable {parts values : List String} {name value : String}

theorem joined (each : ∀ p ∈ parts, Whole Q p) : Whole Q (String.join parts) := by
  induction parts with
  | nil => exact fun _ => spelling.literal rfl rfl
  | cons p rest ih =>
    obtain ⟨first, others⟩ := List.forall_mem_cons.1 each
    rw [String.join_cons]
    exact fun i => spelling.join (first i) (ih others i)

theorem separated (each : ∀ p ∈ parts, Whole Q p) : Whole Q (", ".intercalate parts) := by
  induction parts with
  | nil => exact fun _ => spelling.literal rfl rfl
  | cons p rest ih =>
    obtain ⟨first, others⟩ := List.forall_mem_cons.1 each
    by_cases alone : rest = []
    · simpa [alone] using first
    · rw [String.intercalate_cons_of_ne_nil alone]
      exact fun i => spelling.join (spelling.join (first i) (spelling.literal rfl rfl))
        (ih others i)

theorem operand {a : String} (inside : Whole Q a) : Whole P (Cpp.operand a) := by
  simp only [Cpp.operand]
  split
  · rename_i bare
    refine fun i => spelling.leads (inside i) ?_
    rcases Bool.or_eq_true_iff.1 bare with plain | closed
    · simp only [Bool.and_eq_true, Bool.not_eq_true'] at plain
      exact leadsOperand_of_lacksOperators plain.1 plain.2
    · simp only [Bool.and_eq_true, beq_iff_eq] at closed
      simp [LeadsOperand, LeadsCode, closed]
      decide
  · exact spelling.enclosed inside

theorem indexed {name : String} {indexes : List String} (named : Whole P name)
    (each : ∀ i ∈ indexes, Whole P i) : Whole P (Cpp.indexed name indexes) := by
  refine fun _ => spelling.append named.here (spelling.joined (fun part mem => ?_)).here
  obtain ⟨i, here, rfl⟩ := List.mem_map.1 mem
  exact fun _ => spelling.join (spelling.join (spelling.literal rfl rfl)
    (spelling.following (each i here)).here) (spelling.literal rfl rfl)

theorem called {name : String} {arguments : List String} (named : Whole P name)
    (each : ∀ a ∈ arguments, Whole P a) : Whole P (Cpp.called name arguments) := by
  have list := spelling.separated fun a mem => spelling.following (each a mem)
  exact fun _ => spelling.append (spelling.append (spelling.append named.here
    (spelling.literal rfl rfl)) list.here) (spelling.literal rfl rfl)

theorem number (n : Nat) : Whole Q (toString n) := fun _ =>
  spelling.fixed (flat_nat n) (contained_nat n)
    (walks_plain fun c mem => not_isDelimiter (isDigit_of_mem_nat n c mem) rfl)

theorem firstOf {branches : List (String × String)} {last : String}
    (each : ∀ b ∈ branches, Whole P b.1 ∧ Whole P b.2) (final : Whole P last) :
    Whole P (Cpp.firstOf branches last) := by
  induction branches with
  | nil => exact final
  | cons b rest ih =>
    obtain ⟨⟨condition, value⟩, others⟩ := List.forall_mem_cons.1 each
    have step : Cpp.firstOf (b :: rest) last =
        "(" ++ b.1 ++ " ? " ++ b.2 ++ " : " ++ Cpp.firstOf rest last ++ ")" := rfl
    rw [step]
    intro i
    repeat' with_reducible apply spelling.append
    all_goals first
      | exact spelling.leading rfl rfl rfl
      | exact spelling.literal rfl rfl
      | exact (spelling.following condition).here
      | exact (spelling.following value).here
      | exact (spelling.following (ih others)).here

theorem receiver (inside : Whole Q a) : Whole P (Cpp.receiver a) := by
  unfold Cpp.receiver
  split
  · exact fun _ => spelling.append (spelling.append (spelling.leading rfl rfl rfl) inside.here)
      (spelling.literal rfl rfl)
  · exact spelling.operand inside

theorem choices {index : String} {first : Nat} (head : Whole P index)
    (each : ∀ v ∈ values, Whole P v) :
    ∀ b ∈ Cpp.choices index first values, Whole P b.1 ∧ Whole P b.2 := by
  induction values generalizing first with
  | nil => simp [Cpp.choices]
  | cons v rest ih =>
    obtain ⟨here, others⟩ := List.forall_mem_cons.1 each
    refine List.forall_mem_cons.2 ⟨⟨fun _ => ?_, here⟩, ih others⟩
    exact spelling.append (spelling.append head.here (spelling.literal rfl rfl))
      (spelling.number first).here

omit spelling in
theorem pairs {P : String → Prop} (each : ∀ v ∈ values, P v) :
    ∀ b ∈ Cpp.pairs values, P b.1 ∧ P b.2 := by
  fun_induction Cpp.pairs values with
  | case1 condition value rest ih =>
    simp only [List.forall_mem_cons] at each
    exact List.forall_mem_cons.2 ⟨⟨each.1, each.2.1⟩, ih each.2.2⟩
  | case2 => simp

theorem changedCopy {value statement : String} (inside : Whole Q value) (step : Whole Q statement) :
    Whole P (Cpp.changedCopy value statement) := by
  intro i
  unfold Cpp.changedCopy
  simp only [toString_text]
  repeat' with_reducible apply spelling.append
  all_goals first
    | exact spelling.literal rfl rfl
    | exact spelling.leading rfl rfl rfl
    | with_reducible exact Whole.here (by assumption)

theorem reversedCopy {value : String} (inside : Whole Q value) :
    Whole P (Cpp.reversedCopy value) := by
  intro i
  unfold Cpp.reversedCopy
  simp only [toString_text]
  repeat' with_reducible apply spelling.append
  all_goals first
    | exact spelling.literal rfl rfl
    | exact spelling.leading rfl rfl rfl
    | with_reducible exact Whole.here (by assumption)

theorem repeated {count fill : String} (inside : Whole Q count) (piece : Whole Q fill) :
    Whole P (Cpp.repeated count fill) := by
  intro i
  unfold Cpp.repeated
  repeat' with_reducible apply spelling.append
  all_goals first
    | exact spelling.literal rfl rfl
    | exact spelling.leading rfl rfl rfl
    | with_reducible exact Whole.here (by assumption)

theorem clampedDegrees {angle : String} (inside : Whole Q angle) :
    Whole P (Cpp.clampedDegrees angle) := by
  intro i
  unfold Cpp.clampedDegrees
  simp only [toString_text]
  repeat' with_reducible apply spelling.append
  all_goals first
    | exact spelling.literal rfl rfl
    | exact spelling.leading rfl rfl rfl
    | with_reducible exact Whole.here (by assumption)

theorem pulse {angle : String} (inside : Whole Q angle) : Whole P (Cpp.pulse angle) := by
  intro i
  unfold Cpp.pulse
  simp only [toString_text]
  repeat' with_reducible apply spelling.append
  all_goals first
    | exact spelling.literal rfl rfl
    | exact spelling.leading rfl rfl rfl
    | with_reducible exact Whole.here (by assumption)

theorem pulseBetween {low high angle : String} (first : Whole Q low) (last : Whole Q high)
    (inside : Whole Q angle) :
    Whole P (Cpp.pulseBetween low high angle) := by
  intro i
  unfold Cpp.pulseBetween
  simp only [toString_text]
  repeat' with_reducible apply spelling.append
  all_goals first
    | exact spelling.literal rfl rfl
    | exact spelling.leading rfl rfl rfl
    | with_reducible exact Whole.here (by assumption)

theorem rgb {onPanel : Bool} {r g b : String} (red : Whole Q r) (green : Whole Q g)
    (blue : Whole Q b) :
    Whole P (Cpp.rgb onPanel r g b) := by
  intro i
  unfold Cpp.rgb
  simp only [toString_text]
  split
  all_goals
    repeat' with_reducible apply spelling.append
    all_goals first
      | exact spelling.literal rfl rfl
      | exact spelling.leading rfl rfl rfl
      | with_reducible exact Whole.here (by assumption)

end Spelling

def Carries (P : String → Prop) (call? : String → List String → Option String) : Prop :=
  ∀ ⦃name text : String⦄ ⦃arguments : List String⦄, (∀ a ∈ arguments, P a) →
    call? name arguments = some text → P text

theorem Carries.orElse {P : String → Prop} {a b : String → List String → Option String}
    (first : Carries P a) (second : Carries P b) :
    Carries P (fun name arguments => a name arguments <|> b name arguments) := by
  intro name text arguments each written
  simp only [Option.orElse_eq_orElse, Option.orElse_eq_or, Option.or_eq_some_iff] at written
  rcases written with here | ⟨-, there⟩
  · exact first each here
  · exact second each there

namespace Spelling

variable {P Q : List Char → List Char → String → Prop} (spelling : Spelling P Q)

include spelling

theorem families : ∀ call? ∈ [Cpp.textCall?, Cpp.conversionCall?, Cpp.bitCall?, Cpp.listCall?,
    Cpp.boardCall?], Carries (Whole P) call? := by
  intro call? mem name text arguments each written
  have inside : ∀ a ∈ arguments, Whole Q a := fun a mem => spelling.following (each a mem)
  simp only [List.mem_cons, List.not_mem_nil, or_false] at mem
  rcases mem with rfl | rfl | rfl | rfl | rfl
  all_goals
    first
      | unfold Cpp.textCall? at written
      | unfold Cpp.conversionCall? at written
      | unfold Cpp.bitCall? at written
      | unfold Cpp.listCall? at written
      | unfold Cpp.boardCall? at written
    split at written <;> simp at written <;> rw [← written] <;> simp at inside
  all_goals
    intro i
    repeat' first | with_reducible apply spelling.append | with_reducible apply spelling.join
    all_goals first
      | with_reducible exact spelling.literal (by decide) (by with_unfolding_all rfl)
      | with_reducible exact spelling.leading (by decide) (by decide) (by with_unfolding_all rfl)
      | exact Whole.here (by simp [spelling.receiver, spelling.operand, spelling.following, inside])

theorem copyCall? : Carries (Whole P) Cpp.copyCall? := by
  intro name text arguments each written
  have inside : ∀ a ∈ arguments, Whole Q a := fun a mem => spelling.following (each a mem)
  unfold Cpp.copyCall? at written
  split at written <;> simp at written <;> rw [← written] <;> simp at inside
  case h_1 | h_2 =>
    exact spelling.changedCopy inside.1 fun _ => spelling.join (spelling.join (spelling.join
      (spelling.join (spelling.literal rfl rfl) inside.2.1.here) (spelling.literal rfl rfl))
      inside.2.2.here) (spelling.literal rfl rfl)
  case h_10 => exact spelling.reversedCopy inside
  case h_11 => exact spelling.repeated inside fun _ => spelling.literal rfl rfl
  case h_12 => exact spelling.repeated inside.1 (spelling.fill inside.2)
  all_goals exact spelling.changedCopy inside fun _ => spelling.literal rfl rfl

theorem selectionCall? : Carries (Whole P) Cpp.selectionCall? := by
  intro name text arguments each written
  unfold Cpp.selectionCall? at written
  split at written
  · rename_i c a b
    simp at written each
    rw [← written]
    have whole : Whole P (Cpp.firstOf [(c, a)] b) := spelling.firstOf (by simp [each]) each.2.2
    exact whole
  · rename_i index first rest
    simp only [Option.some.injEq] at written
    rw [← written]
    obtain ⟨head, values⟩ := List.forall_mem_cons.1 each
    refine spelling.firstOf (spelling.choices (spelling.operand (spelling.following head)) ?_) ?_
    · exact fun v mem => values v ((List.dropLast_subset _) mem)
    · cases eq : (first :: rest).getLast? with
      | none => simp at eq
      | some last => exact values last (List.mem_of_getLast? eq)
  · rename_i condition value rest
    simp only [Option.ite_none_right_eq_some, Option.some.injEq] at written
    rw [← written.2]
    have branches := pairs each
    refine spelling.firstOf (fun b mem => branches b ((List.dropLast_subset _) mem)) ?_
    cases eq : (Cpp.pairs (condition :: value :: rest)).getLast? with
    | none => simp [Cpp.pairs] at eq
    | some last => exact (branches last (List.mem_of_getLast? eq)).2
  · simp at written

theorem mathCall? : Carries (Whole P) Cpp.mathCall? := by
  intro name text arguments each written
  have inside : ∀ a ∈ arguments, Whole Q a := fun a mem => spelling.following (each a mem)
  unfold Cpp.mathCall? at written
  split at written <;> simp at written
  case h_7 =>
    obtain ⟨listed, rfl⟩ := written
    simp at inside
    have named : Whole P name := by
      rcases listed with rfl | rfl | rfl | rfl | rfl | rfl | rfl | rfl
      all_goals exact fun _ => spelling.leading rfl rfl rfl
    exact fun _ => spelling.append (spelling.append (spelling.append named.here
      (spelling.literal rfl rfl)) inside.here) (spelling.literal rfl rfl)
  all_goals
    rw [← written]
    simp at inside
    intro i
    repeat' with_reducible apply spelling.append
    all_goals first
      | exact spelling.literal rfl rfl
      | exact spelling.leading rfl rfl rfl
      | with_reducible exact Whole.here (by assumption)

theorem servoCall? : Carries (Whole P) Cpp.servoCall? := by
  intro name text arguments each written
  have inside : ∀ a ∈ arguments, Whole Q a := fun a mem => spelling.following (each a mem)
  unfold Cpp.servoCall? at written
  split at written <;> simp at written <;> rw [← written] <;> simp at inside
  case h_1 => exact spelling.clampedDegrees inside
  case h_2 => exact spelling.pulse inside
  case h_3 => exact spelling.pulseBetween inside.2.1 inside.2.2 inside.1
  case h_4 => exact spelling.pulse (spelling.following (spelling.clampedDegrees inside))
  case h_5 =>
    exact spelling.pulseBetween inside.2.1 inside.2.2
      (spelling.following (spelling.clampedDegrees inside.1))

theorem plainCall? : Carries (Whole P) Cpp.plainCall? := by
  have families := spelling.families
  simp only [List.forall_mem_cons] at families
  obtain ⟨text, conversion, bit, list, board, -⟩ := families
  exact text.orElse <| spelling.copyCall?.orElse <| conversion.orElse <|
    spelling.selectionCall?.orElse <| bit.orElse <| spelling.mathCall?.orElse <|
    list.orElse <| board.orElse spelling.servoCall?

variable {arguments : List (List Token)} {values : List String} {σ : Symbols}

theorem upperBound? (bounds : ∀ entry ∈ σ.bounds, ∀ bound ∈ entry.2, Whole Q bound)
    (written : Cpp.upperBound? σ arguments values = some text) : Whole P text := by
  unfold Cpp.upperBound? at written
  split at written
  · obtain ⟨listed, known, written⟩ := Option.bind_eq_some_iff.1 written
    -- with or without a dimension, the text is that of one of the bounds
    split at written
    all_goals
      obtain ⟨dimension, -, written⟩ := Option.bind_eq_some_iff.1 written
      simp only at written
      split at written
      · simp at written
      · obtain ⟨bound, found, written⟩ := Option.bind_eq_some_iff.1 written
        have inside := bounds _ (mem_of_lookup known) bound (List.mem_of_getElem? found)
        rw [← Option.some.inj written]
        split
        · rename_i number
          exact fun i => spelling.leads (inside i) (leadsOperand_of_readSigned? number)
        · exact spelling.enclosed inside
  · simp at written

variable {name : String}

theorem builtin? (bounds : ∀ entry ∈ σ.bounds, ∀ bound ∈ entry.2, Whole Q bound)
    (each : ∀ v ∈ values, Whole P v) (written : Cpp.builtin? σ name arguments values = some text) :
    Whole P text := by
  have inside : ∀ v ∈ values, Whole Q v := fun v mem => spelling.following (each v mem)
  have base : Whole P (toString σ.base) :=
    fun i => spelling.leads (spelling.number _ i) (leadsOperand_nat _)
  unfold Cpp.builtin? at written
  split at written
  · exact spelling.upperBound? bounds written
  · exact spelling.upperBound? bounds written
  · exact Option.some.inj written ▸ base
  · exact Option.some.inj written ▸ base
  · rw [← Option.some.inj written]
    simp at inside
    exact spelling.rgb inside.1 inside.2.1 inside.2.2
  · exact spelling.plainCall? each written

theorem namedCall (bounds : ∀ entry ∈ σ.bounds, ∀ bound ∈ entry.2, Whole Q bound)
    (named : Whole P name) (each : ∀ v ∈ values, Whole P v) :
    Whole P (Cpp.namedCall σ name arguments values) := by
  simp only [Cpp.namedCall]
  split
  · rename_i text written
    exact spelling.builtin? bounds each written
  · split
    · exact spelling.called named each
    · exact spelling.indexed named each

end Spelling

end BasicSketch.Cpp
