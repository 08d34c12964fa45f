import BasicSketch.LineMap
import BasicSketch.Proofs.Flat
import BasicSketch.Proofs.Trimming
import BasicSketch.Sketch.Render
import Mathlib.Data.List.Infix

set_option autoImplicit false

/-! The physical lines of a numbered text, and which of them are markers. -/

namespace BasicSketch

open SketchLine (indent markerStart)

namespace Text

variable {ds cs : List Char}

theorem chomp_append (cs : List Char) (more : ds ≠ []) : chomp (cs ++ ds) = cs ++ chomp ds := by
  induction cs with
  | nil => rfl
  | cons c rest ih => rw [List.cons_append, chomp_cons (by simp [more]), ih, List.cons_append]

theorem chomp_of_not_mem (none_in : '\r' ∉ cs) : chomp cs = cs := by
  fun_induction chomp cs with
  | case1 => rfl
  | case2 => simp at none_in
  | case3 c rest other ih => rw [ih fun mem => none_in (List.mem_cons_of_mem _ mem)]

theorem chomp_cons_of_ne {c : Char} (rest : List Char) (stays : c ≠ '\r') :
    chomp (c :: rest) = c :: chomp rest := by
  cases rest with
  | nil => simp [chomp, stays]
  | cons d tail => exact chomp_cons (by simp)

theorem dropBlanks_chomp (dark : dropBlanks cs ≠ []) :
    dropBlanks (chomp cs) = chomp (dropBlanks cs) := by
  induction cs with
  | nil => simp [dropBlanks] at dark
  | cons c rest ih =>
    cases blank : isBlank c with
    | true =>
      have dropped : dropBlanks (c :: rest) = dropBlanks rest := by simp [dropBlanks, blank]
      rw [dropped] at dark ⊢
      have more : rest ≠ [] := by
        rintro rfl
        simp [dropBlanks] at dark
      rw [chomp_cons more, ← ih dark]
      simp [dropBlanks, blank]
    | false =>
      have stays : c ≠ '\r' := by
        rintro rfl
        exact absurd blank (by decide)
      have kept (tail : List Char) : dropBlanks (c :: tail) = c :: tail := by
        simp [dropBlanks, blank]
      rw [chomp_cons_of_ne rest stays, kept, kept, chomp_cons_of_ne rest stays]

/-- The line that a text becomes when it is written with a break behind it and read again. -/
def physical (line : String) : String := String.ofList (chomp line.toList)

theorem flat_physical {line : String} (flat : Flat line) : Flat (physical line) :=
  flat_ofList_of_subset flat fun _ mem => (chomp_sublist _).subset mem

theorem lines_unlines {ls : List String} (flat : ∀ l ∈ ls, Flat l) :
    lines (unlines ls) = ls.map physical := by
  induction ls with
  | nil => rfl
  | cons l rest ih =>
    have later := ih fun l' mem => flat l' (List.mem_cons_of_mem _ mem)
    have text : (unlines (l :: rest)).toList = l.toList ++ '\n' :: (unlines rest).toList := by
      simp [unlines]
    rw [lines, text, splitLines_append (flat l List.mem_cons_self), List.map_cons, List.map_cons]
    rw [lines] at later
    rw [later]
    rfl

def differs : List Char → List Char → Bool
  | c :: cs, d :: ds => (c != d && c != '\r') || differs cs ds
  | _, _ => false

theorem differs_append (tail : List Char) (apart : differs cs ds = true) :
    differs (cs ++ tail) ds = true := by
  fun_induction differs cs ds with
  | case1 c cs d ds ih =>
    simp only [List.cons_append, differs, Bool.or_eq_true] at apart ⊢
    exact apart.imp_right ih
  | case2 => simp at apart

theorem differs_chomp (apart : differs cs ds = true) : differs (chomp cs) ds = true := by
  fun_induction differs cs ds with
  | case1 c cs d ds ih =>
    by_cases last : cs = []
    · subst last
      have here : (c != d && c != '\r') = true := by simpa [differs] using apart
      obtain ⟨-, stays⟩ := Bool.and_eq_true_iff.1 here
      rw [chomp_cons_of_ne [] (by simpa using stays)]
      simpa [differs, chomp] using apart
    · rw [chomp_cons last]
      simp only [differs, Bool.or_eq_true] at apart ⊢
      exact apart.imp_right ih
  | case2 => simp at apart

theorem isPrefixOf?_append (cs rest : List Char) : cs.isPrefixOf? (cs ++ rest) = some rest :=
  List.isPrefixOf?_eq_some_iff_append_eq.2 rfl

theorem isPrefixOf?_of_differs (apart : differs cs ds = true) : ds.isPrefixOf? cs = none := by
  fun_induction differs cs ds with
  | case1 c cs d ds ih =>
    simp only [Bool.or_eq_true, Bool.and_eq_true, bne_iff_ne, ne_eq] at apart
    by_cases same : c = d
    · subst same
      have later : differs cs ds = true := by simpa using apart
      simp [List.isPrefixOf?, ih later]
    · simp [List.isPrefixOf?, Ne.symm same]
  | case2 => simp at apart

end Text

open Text

def markerChars : List Char :=
  ['/', '/', ' ', '_', '_', 'V', 'B', '_', 'L', 'I', 'N', 'E', '_', '_', ':']

theorem toList_markerStart : markerStart.toList = markerChars := rfl

def IsCode (text : String) : Prop :=
  Flat text ∧ differs (dropBlanks text.toList) markerChars = true

theorem dropBlanks_indent (depth : Nat) (cs : List Char) :
    dropBlanks ((indent depth).toList ++ cs) = dropBlanks cs := by
  unfold dropBlanks indent
  rw [String.toList_ofList, List.dropWhile_append_of_pos]
  intro c mem
  rw [List.eq_of_mem_replicate mem]
  decide

theorem flat_indent (depth : Nat) : Flat (indent depth) := by
  refine flat_ofList fun mem => ?_
  exact absurd (List.eq_of_mem_replicate mem) (by decide)

namespace IsCode

variable {text : String} {cs : List Char}

theorem flat (code : IsCode text) : Flat text := code.1

theorem ofList (flat : '\n' ∉ cs) (apart : differs (dropBlanks cs) markerChars = true) :
    IsCode (String.ofList cs) :=
  ⟨flat_ofList flat, by simpa using apart⟩

theorem fixed (code : (!cs.contains '\n' && differs (dropBlanks cs) markerChars) = true) :
    IsCode (String.ofList cs) := by
  obtain ⟨flat, apart⟩ := Bool.and_eq_true_iff.1 code
  exact ofList (by simpa using flat) apart

theorem dropBlanks_ne_nil {ds : List Char} (apart : differs (dropBlanks cs) ds = true) :
    dropBlanks cs ≠ [] := by
  intro eq
  simp [eq, differs] at apart

theorem append {a b : String} (code : IsCode a) (flat : Flat b) : IsCode (a ++ b) := by
  refine ⟨(flat_append a b).2 ⟨code.1, flat⟩, ?_⟩
  rw [String.toList_append, dropBlanks_append_of_ne_nil _ (dropBlanks_ne_nil code.2)]
  exact differs_append _ code.2

theorem lead {rest : String} (flat : Flat rest)
    (code : (!cs.contains '\n' && differs (dropBlanks cs) markerChars) = true) :
    IsCode (String.ofList cs ++ rest) :=
  (IsCode.fixed code).append flat

theorem indented (code : IsCode text) (depth : Nat) : IsCode (indent depth ++ text) := by
  refine ⟨(flat_append ..).2 ⟨flat_indent depth, code.1⟩, ?_⟩
  rw [String.toList_append, dropBlanks_indent]
  exact code.2

theorem around {ds : List Char} {middle : String} (flatMiddle : Flat middle)
    (code : (!cs.contains '\n' && differs (dropBlanks cs) markerChars) = true)
    (flatEnd : ds.contains '\n' = false) :
    IsCode (String.ofList cs ++ middle ++ String.ofList ds) :=
  (lead flatMiddle code).append (flat_text flatEnd)

theorem of_leadsCode (flat : Flat text)
    (leads : LeadsCode (String.ofList (dropBlanks text.toList))) : IsCode text := by
  refine ⟨flat, ?_⟩
  simp only [LeadsCode, String.toList_ofList] at leads
  cases eq : dropBlanks text.toList with
  | nil => simp [eq] at leads
  | cons c rest =>
    simp only [eq, List.head?_cons, Option.any_some, Bool.and_eq_true, Bool.not_eq_true',
      bne_iff_ne, ne_eq] at leads
    have stays : c ≠ '\r' := by
      rintro rfl
      exact absurd leads.1 (by decide)
    simp [markerChars, differs, leads.2, stays]

theorem of_leads (flat : Flat text) (leads : LeadsCode text) : IsCode text := by
  apply of_leadsCode flat
  unfold LeadsCode at leads ⊢
  cases eq : text.toList with
  | nil => simp [eq] at leads
  | cons c rest =>
    simp only [eq, List.head?_cons, Option.any_some, Bool.and_eq_true, Bool.not_eq_true'] at leads
    simpa [dropBlanks, leads.1] using leads

end IsCode

namespace LineMap

theorem markedLine?_of_differs {line : String}
    (apart : differs (dropBlanks line.toList) markerChars = true) :
    markedLine? line = none := by
  simp [markedLine?, toList_markerStart, isPrefixOf?_of_differs apart]

end LineMap

namespace Sketch

def numberLabel (number : Nat) : String := "// L" ++ padded 4 number

theorem flat_padded (width n : Nat) : Flat (padded width n) := by
  unfold padded padLeft
  rw [flat_append]
  refine ⟨flat_ofList ?_, flat_nat n⟩
  intro mem
  exact absurd (List.eq_of_mem_replicate mem) (by decide)

theorem flat_numberLabel (number : Nat) : Flat (numberLabel number) :=
  (flat_append ..).2 ⟨flat_text rfl, flat_padded 4 number⟩

theorem numberedLine_eq (number : Nat) (line : String) :
    numberedLine number line =
      if (trim line).isEmpty then numberLabel number else line ++ " " ++ numberLabel number := rfl

theorem flat_numberedLine {line : String} (number : Nat) (flat : Flat line) :
    Flat (numberedLine number line) := by
  rw [numberedLine_eq]
  split
  · exact flat_numberLabel number
  · simp only [flat_append]
    exact ⟨⟨flat, flat_text rfl⟩, flat_numberLabel number⟩

theorem noReturn_nat (n : Nat) : '\r' ∉ (toString n).toList := by
  intro mem
  exact absurd (isDigit_of_mem_nat n _ mem) (by decide)

theorem noReturn_numberLabel (number : Nat) : '\r' ∉ (numberLabel number).toList := by
  simp only [numberLabel, padded, padLeft, String.toList_append, String.toList_ofList,
    List.mem_append, List.mem_replicate, not_or]
  exact ⟨by decide, by simp, noReturn_nat number⟩

theorem physical_numberedLine (number : Nat) (line : String) :
    physical (numberedLine number line) = numberedLine number line := by
  have label := chomp_of_not_mem (noReturn_numberLabel number)
  have some_label : (numberLabel number).toList ≠ [] := by simp [numberLabel]
  rw [numberedLine_eq, physical]
  split
  · rw [label, String.ofList_toList]
  · rw [String.toList_append, chomp_append _ some_label, label, ← String.toList_append,
      String.ofList_toList]

theorem differs_numberLabel (number : Nat) :
    differs (dropBlanks (numberLabel number).toList) markerChars = true := by
  have code : IsCode "// L" := IsCode.fixed rfl
  exact (code.append (flat_padded 4 number)).2

theorem differs_numberedLine {line : String} (code : IsCode line) (number : Nat) :
    differs (dropBlanks (numberedLine number (physical line)).toList) markerChars = true := by
  rw [numberedLine_eq]
  split
  · exact differs_numberLabel number
  · have dark := IsCode.dropBlanks_ne_nil code.2
    have shown : dropBlanks (physical line).toList = chomp (dropBlanks line.toList) := by
      rw [physical, String.toList_ofList, dropBlanks_chomp dark]
    have apart : differs (dropBlanks (physical line).toList) markerChars = true :=
      shown ▸ differs_chomp code.2
    rw [String.append_assoc, String.toList_append,
      dropBlanks_append_of_ne_nil _ (IsCode.dropBlanks_ne_nil apart)]
    exact differs_append _ apart

theorem markedLine?_code {text : String} (code : IsCode text) (depth number : Nat) :
    LineMap.markedLine?
      (numberedLine number (physical (indent depth ++ text))) = none :=
  LineMap.markedLine?_of_differs (differs_numberedLine (code.indented depth) number)

theorem isDecimalDigit_of_isDigit {c : Char} (digit : c.isDigit = true) :
    isDecimalDigit c = true := by
  have code : 48 ≤ c.toNat ∧ c.toNat ≤ 57 := by
    simpa [Char.isDigit, UInt32.le_iff_toNat_le] using digit
  have all : ∀ n ∈ List.range' 48 10, (decimalDigitEdges.countP (· ≤ n) % 2 == 1) = true := by
    decide
  exact all c.toNat (by simp; omega)

theorem readWithin?_nat {n limit : Nat} (bound : n ≤ limit) :
    readWithin? limit (toString n).toList = some n := by
  rw [readWithin?, readDigits?_nat]
  simp [bound]

theorem noReturn_marker (origin : Origin) (depth source : Nat) :
    '\r' ∉ (SketchLine.marker origin depth source).render.toList := by
  simp only [SketchLine.render, indent, String.toList_append, String.toList_ofList,
    List.mem_append, List.mem_replicate, not_or]
  exact ⟨⟨by simp, by decide⟩, noReturn_nat source⟩

theorem dropBlanks_marker (tail : List Char) :
    dropBlanks (markerChars ++ tail) = markerChars ++ tail := rfl

theorem toList_numbered_marker (origin : Origin) (depth number source : Nat) :
    (numberedLine number (physical (SketchLine.marker origin depth source).render)).toList =
      (indent depth).toList ++ (markerChars ++
        ((toString source).toList ++ ' ' :: (numberLabel number).toList)) := by
  have whole : physical (SketchLine.marker origin depth source).render =
      indent depth ++ markerStart ++ toString source := by
    rw [physical, chomp_of_not_mem (noReturn_marker origin depth source), String.ofList_toList]
    rfl
  have some_text : (trim (indent depth ++ markerStart ++
      toString source)).isEmpty = false := by
    obtain ⟨more, trimmed⟩ := dropBlanksEnd_cons (c := '/')
      (markerChars.tail ++ (toString source).toList) (by decide)
    have start : dropBlanks (indent depth ++ markerStart ++
        toString source).toList =
          '/' :: (markerChars.tail ++ (toString source).toList) := by
      rw [String.toList_append, String.toList_append, List.append_assoc, dropBlanks_indent,
        toList_markerStart, dropBlanks_marker]
      rfl
    rw [trim, start, trimmed]
    simp
  rw [numberedLine_eq, whole, some_text]
  simp [toList_markerStart]

theorem markedLine?_marker (origin : Origin) (depth number : Nat) {source : Nat}
    (bound : source ≤ maxLong) :
    LineMap.markedLine?
      (numberedLine number (physical (SketchLine.marker origin depth source).render)) =
        some source := by
  have digits : ((toString source).toList ++ ' ' :: (numberLabel number).toList).takeWhile
      isDecimalDigit = (toString source).toList := by
    rw [List.takeWhile_append_of_pos]
    · have stop : isDecimalDigit ' ' = false := by decide
      simp [stop]
    · intro c mem
      exact isDecimalDigit_of_isDigit (isDigit_of_mem_nat source c mem)
  rw [LineMap.markedLine?, toList_numbered_marker, dropBlanks_indent, dropBlanks_marker,
    toList_markerStart, isPrefixOf?_append]
  simp only [Option.bind_eq_bind, Option.bind_some]
  rw [digits, readWithin?_nat bound]

end Sketch

end BasicSketch
