import BasicSketch.Token.Reader
import BasicSketch.Text.Lines
import BasicSketch.Proofs.Lexeme

set_option autoImplicit false

/-! Texts without line feeds, and the tokens of a line that has none. -/

namespace BasicSketch

namespace Text

def Flat (s : String) : Prop := '\n' ∉ s.toList

instance (s : String) : Decidable (Flat s) := inferInstanceAs (Decidable ('\n' ∉ s.toList))

@[simp] theorem toString_text (s : String) : toString s = s := rfl

@[simp] theorem flat_append (a b : String) : Flat (a ++ b) ↔ Flat a ∧ Flat b := by
  simp [Flat, not_or]

variable {cs : List Char} {s a : String} {c : Char}

theorem flat_ofList (flat : '\n' ∉ cs) : Flat (String.ofList cs) := by
  simpa [Flat] using flat

theorem flat_text (flat : cs.contains '\n' = false) : Flat (String.ofList cs) :=
  flat_ofList (by simpa using flat)

theorem flat_ofList_of_subset (flat : Flat s) (within : ∀ c ∈ cs, c ∈ s.toList) :
    Flat (String.ofList cs) :=
  flat_ofList fun mem => flat (within _ mem)

variable {parts : List String}

theorem flat_join (flat : ∀ p ∈ parts, Flat p) : Flat (String.join parts) := by
  simpa [Flat, String.toList_join] using flat

theorem flat_intercalate {sep : String} (flatSep : Flat sep) (flat : ∀ p ∈ parts, Flat p) :
    Flat (sep.intercalate parts) := by
  induction parts with
  | nil => simp +decide
  | cons first rest ih =>
    have here := flat first List.mem_cons_self
    have there := ih fun p mem => flat p (List.mem_cons_of_mem _ mem)
    by_cases alone : rest = []
    · simpa [alone] using here
    · simp [String.intercalate_cons_of_ne_nil alone, here, flatSep, there]

theorem mem_of_mem_dropBlanks (mem : c ∈ dropBlanks cs) : c ∈ cs :=
  (List.dropWhile_suffix _).subset mem

theorem mem_of_mem_trim (mem : c ∈ (trim s).toList) : c ∈ s.toList := by
  simp only [toList_trim, dropBlanksEnd, List.mem_reverse] at mem
  exact mem_of_mem_dropBlanks (List.mem_reverse.1 (mem_of_mem_dropBlanks mem))

theorem flat_trim (flat : Flat s) : Flat (trim s) :=
  fun mem => flat (mem_of_mem_trim mem)

theorem flat_nat (n : Nat) : Flat (toString n) := by
  intro mem
  exact absurd (isDigit_of_mem_nat n _ mem) (by decide)

def Named (s : String) : Prop := s.toList.head?.any (fun c => c.isAlpha || c == '_') = true

def LeadsCode (s : String) : Prop := s.toList.head?.any (fun c => !isBlank c && c != '/') = true

instance (s : String) : Decidable (LeadsCode s) :=
  inferInstanceAs (Decidable (s.toList.head?.any (fun c => !isBlank c && c != '/') = true))

theorem leadsCode_append (b : String) (leads : LeadsCode a) : LeadsCode (a ++ b) := by
  unfold LeadsCode at *
  cases eq : a.toList with
  | nil => simp [eq] at leads
  | cons c rest => simpa [eq] using leads

theorem leadsCode_ofList
    (leads : cs.head?.any (fun c => !isBlank c && c != '/') = true) :
    LeadsCode (String.ofList cs) := by
  simpa [LeadsCode] using leads

theorem leads_of_isNameChar (name : isNameChar c = true) : (!isBlank c && c != '/') = true := by
  have slash : c ≠ '/' := by
    rintro rfl
    cases name
  rw [isNameChar_iff] at name
  simp [isBlank, slash]
  omega

theorem flat_of_isNameChar (name : ∀ c ∈ s.toList, isNameChar c = true) : Flat s :=
  fun mem => absurd (leads_of_isNameChar (name _ mem)) (by decide)

theorem leads_of_nameStart (start : (c.isAlpha || c == '_') = true) :
    (!isBlank c && c != '/') = true := by
  apply leads_of_isNameChar
  rcases Bool.or_eq_true_iff.1 start with letter | underscore
  · simp [isNameChar, Char.isAlphanum, letter]
  · simp [isNameChar, underscore]

theorem leadsCode_of_named (named : Named s) : LeadsCode s := by
  unfold Named at named
  unfold LeadsCode
  cases eq : s.toList with
  | nil => simp [eq] at named
  | cons c rest =>
    simp only [eq, List.head?_cons, Option.any_some] at named ⊢
    exact leads_of_nameStart named

theorem dropBlanksEnd_cons (cs : List Char) (dark : isBlank c = false) :
    ∃ rest, dropBlanksEnd (c :: cs) = c :: rest := by
  unfold dropBlanksEnd dropBlanks
  rw [List.reverse_cons, List.dropWhile_append]
  split <;> simp [dark]

theorem head?_trim (leads : LeadsCode s) : (trim s).toList.head? = s.toList.head? := by
  unfold LeadsCode at leads
  cases eq : s.toList with
  | nil => simp [eq] at leads
  | cons c rest =>
    simp only [eq, List.head?_cons, Option.any_some, Bool.and_eq_true, Bool.not_eq_true'] at leads
    obtain ⟨more, trimmed⟩ := dropBlanksEnd_cons rest leads.1
    simp [eq, dropBlanks, leads.1, trimmed]

theorem leadsCode_trim (leads : LeadsCode s) : LeadsCode (trim s) := by
  rw [LeadsCode, head?_trim leads]
  exact leads

theorem named_trim (named : Named s) : Named (trim s) := by
  rw [Named, head?_trim (leadsCode_of_named named)]
  exact named

theorem named_append (b : String) (named : Named a) : Named (a ++ b) := by
  unfold Named at *
  cases eq : a.toList with
  | nil => simp [eq] at named
  | cons c rest => simpa [eq] using named

def LeadsStatement (s : String) : Prop :=
  LeadsCode s ∧ s.toList.head? ≠ some '\x7d'

instance (s : String) : Decidable (LeadsStatement s) :=
  inferInstanceAs (Decidable (LeadsCode s ∧ s.toList.head? ≠ some '\x7d'))

theorem leadsStatement_append (b : String) (leads : LeadsStatement a) :
    LeadsStatement (a ++ b) := by
  refine ⟨leadsCode_append b leads.1, ?_⟩
  have other := leads.2
  cases eq : a.toList with
  | nil => exact absurd leads.1 (by simp [LeadsCode, eq])
  | cons c rest => simpa [eq] using other

theorem leadsStatement_ofList
    (leads : cs.head?.any (fun c => !isBlank c && c != '/') = true ∧ cs.head? ≠ some '\x7d') :
    LeadsStatement (String.ofList cs) := by
  simpa [LeadsStatement, LeadsCode] using leads

theorem leadsStatement_of_named (named : Named s) : LeadsStatement s := by
  refine ⟨leadsCode_of_named named, fun brace => ?_⟩
  simp [Named, brace] at named

theorem leadsStatement_trim (leads : LeadsStatement s) : LeadsStatement (trim s) :=
  ⟨leadsCode_trim leads.1, by rw [head?_trim leads.1]; exact leads.2⟩

end Text

def Begins (c : Char) (text : String) : Prop := text.toList.head? = some c

def Ends (c : Char) (text : String) : Prop := text.toList.getLast? = some c

variable {c : Char} {cs : List Char} {text : String}

theorem begins_ofList (first : cs.head? = some c) : Begins c (String.ofList cs) := by
  simpa [Begins] using first

theorem ends_ofList (last : cs.getLast? = some c) : Ends c (String.ofList cs) := by
  simpa [Ends] using last

theorem Begins.append (begins : Begins c text) (rest : String) : Begins c (text ++ rest) := by
  rw [Begins, String.toList_append, List.head?_append, begins]
  rfl

theorem Ends.after (ends : Ends c text) (before : String) : Ends c (before ++ text) := by
  rw [Ends, String.toList_append, List.getLast?_append, ends]
  rfl

namespace Text

/-- A line without the carriage return that its break takes. -/
def chomp : List Char → List Char
  | [] => []
  | ['\r'] => []
  | c :: rest => c :: chomp rest

theorem chomp_cons {c : Char} {rest : List Char} (more : rest ≠ []) :
    chomp (c :: rest) = c :: chomp rest := by
  cases rest with
  | nil => exact absurd rfl more
  | cons d tail => rw [chomp]; simp

variable {cs : List Char}

theorem chomp_sublist (cs : List Char) : (chomp cs).Sublist cs := by
  fun_induction chomp cs with
  | case1 => exact List.Sublist.slnil
  | case2 => exact List.nil_sublist _
  | case3 c rest other ih => exact ih.cons_cons c

theorem splitLines_append (flat : '\n' ∉ cs) (rest : List Char) :
    splitLines (cs ++ '\n' :: rest) = chomp cs :: splitLines rest := by
  induction cs with
  | nil => rfl
  | cons c more ih =>
    obtain ⟨here, there⟩ : '\n' ≠ c ∧ '\n' ∉ more := by simpa using flat
    cases more with
    | nil =>
      by_cases ret : c = '\r'
      · subst ret
        rfl
      · rw [List.singleton_append, splitLines.eq_4 c _ (Ne.symm here) (fun _ eq => absurd eq ret)]
        simp [splitLines, chomp, ret]
    | cons d tail =>
      have notFeed : d ≠ '\n' := by
        rintro rfl
        simp at there
      rw [List.cons_append, splitLines.eq_4 c _ (Ne.symm here) (by simp [notFeed]), ih there,
        @chomp_cons c (d :: tail) (by simp)]

theorem splitLines_ne_nil (filled : cs ≠ []) : splitLines cs ≠ [] := by
  fun_cases splitLines cs <;> simp_all

theorem splitLines_flat (flat : '\n' ∉ cs) (filled : cs ≠ []) : splitLines cs = [cs] := by
  induction cs with
  | nil => exact absurd rfl filled
  | cons c rest ih =>
    obtain ⟨here, there⟩ : '\n' ≠ c ∧ '\n' ∉ rest := by simpa using flat
    rw [splitLines.eq_4 c rest (Ne.symm here) fun tail _ eq => there (by simp [eq])]
    cases rest with
    | nil => rfl
    | cons d tail => rw [ih there (by simp)]

theorem line_induction {P : List Char → Prop} (last : ∀ cs, '\n' ∉ cs → P cs)
    (line : ∀ cs rest, '\n' ∉ cs → P rest → P (cs ++ '\n' :: rest)) (cs : List Char) : P cs := by
  induction size : cs.length using Nat.strongRecOn generalizing cs with
  | ind n ih =>
    by_cases feed : '\n' ∈ cs
    · obtain ⟨before, rest, rfl, flat⟩ := List.eq_append_cons_of_mem feed
      exact line _ _ flat (ih _ (by simp [← size]; omega) _ rfl)
    · exact last cs feed

theorem not_mem_of_mem_splitLines {line : List Char} (mem : line ∈ splitLines cs) :
    '\n' ∉ line := by
  induction cs using line_induction with
  | last cs flat =>
    cases cs with
    | nil => simp [splitLines] at mem
    | cons c rest =>
      rw [splitLines_flat flat (by simp)] at mem
      rwa [List.mem_singleton.1 mem]
  | line cs rest flat ih =>
    rw [splitLines_append flat] at mem
    rcases List.mem_cons.1 mem with rfl | later
    · exact fun feed => flat ((chomp_sublist cs).subset feed)
    · exact ih later

theorem flat_of_mem_lines {s line : String} (mem : line ∈ lines s) : Flat line := by
  obtain ⟨cs, here, rfl⟩ := List.mem_map.1 mem
  exact flat_ofList (not_mem_of_mem_splitLines here)

end Text

open Text

namespace Token

structure Clean (t : Token) : Prop where
  gap : Flat t.gap
  white : ∀ c ∈ t.gap.toList, isGap c = true
  text : Flat t.text
  lexeme : Lexeme t.kind t.text.toList

variable {t : Token} {line : String}

theorem Clean.wordText (clean : t.Clean) (word : t.isWord = true) : WordText t.text.toList :=
  clean.lexeme.wordText word

theorem Clean.named (clean : t.Clean) (word : t.isWord = true) : Named t.text :=
  (clean.wordText word).start

theorem clean_of_mem_ofLine (flat : Flat line) (mem : t ∈ ofLine line) : t.Clean :=
  ⟨fun feed => flat ((laid_ofLine line).gaps t mem _ feed).2, isGap_of_mem_ofLine mem,
    fun feed => flat (mem_of_mem_ofLine mem _ feed), lexeme_of_mem_ofLine mem⟩

theorem isGap_of_isBlank {c : Char} (dark : isBlank c = false) : isGap c = false := by
  cases white : isGap c with
  | false => rfl
  | true =>
    simp only [isGap, Bool.or_eq_true, beq_iff_eq] at white
    rcases white with (((rfl | rfl) | rfl) | rfl) | rfl <;> simp [isBlank] at dark

theorem scanWord_isWord (cs : List Char) : (scanWord cs).1.isWord = true := by
  simp only [scanWord]
  repeat' split
  all_goals rfl

theorem ofLine_of_named (named : Named line) :
    ∃ t rest, ofLine line = t :: rest ∧ t.isWord = true := by
  unfold Named at named
  cases eq : line.toList with
  | nil => simp [eq] at named
  | cons c rest =>
    simp only [eq, List.head?_cons, Option.any_some] at named
    have dark := (Bool.and_eq_true_iff.1 (leads_of_nameStart named)).1
    have solid := isGap_of_isBlank (by simpa using dark)
    rw [ofLine, eq, scanFrom]
    simp only [solid, Bool.false_eq_true, if_false]
    refine ⟨_, _, rfl, ?_⟩
    simp only [isWord, scan, named, if_true]
    exact scanWord_isWord _

theorem paren_mem_of_mem_ofLine (mem : t ∈ ofLine line) (paren : t.kind = .symbol .leftParen) :
    '(' ∈ line.toList := by
  have lexeme := lexeme_of_mem_ofLine mem
  rw [paren] at lexeme
  refine mem_of_mem_ofLine mem '(' ?_
  rw [show t.text.toList = ['('] from lexeme]
  exact List.mem_singleton_self _

theorem flat_slice {ts : List Token} (clean : ∀ t ∈ ts, t.Clean) : Flat (slice ts) := by
  cases ts with
  | nil => decide
  | cons t rest =>
    rw [slice, flat_append]
    refine ⟨(clean t List.mem_cons_self).text, flat_join ?_⟩
    intro part mem
    obtain ⟨u, here, rfl⟩ := List.mem_map.1 mem
    have inside := clean u (List.mem_cons_of_mem _ here)
    exact (flat_append ..).2 ⟨inside.gap, inside.text⟩

end Token

end BasicSketch
