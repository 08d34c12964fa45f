import BasicSketch.Diagnostic
import BasicSketch.Proofs.MarkedLine
import Mathlib.Data.List.DropRight

set_option autoImplicit false

/-! The output of a compiler: which reports are about the main file, and on which line. -/

namespace BasicSketch

open Sketch (isDecimalDigit_of_isDigit readWithin?_nat)
open Text

theorem Text.lines_of_flat {text : String} (flat : Flat text) (filled : text ≠ "") :
    lines text = [text] := by
  rw [lines, splitLines_flat flat (by simpa using filled), List.map_singleton, String.ofList_toList]

def Report.text (r : Report) : String := r.severity.label ++ ": " ++ r.message

theorem Report.ofChars?_text (r : Report) : Report.ofChars? r.text.toList = some r := by
  obtain ⟨severity, message⟩ := r
  have found := isPrefixOf?_append (severity.label ++ ": ").toList message.toList
  rw [Report.ofChars?, Report.text, String.toList_append]
  cases severity <;> simp_all [Severity.all, Severity.label, List.isPrefixOf?]

namespace Location

def columnText : Option String → String
  | none => ""
  | some digits => ":" ++ digits

def IsColumn (digits : String) : Prop := digits ≠ "" ∧ ∀ d ∈ digits.toList, isDecimalDigit d = true

theorem span_digits {ds rest : List Char} (digits : ∀ d ∈ ds, isDecimalDigit d = true) :
    (ds ++ ':' :: rest).takeWhile isDecimalDigit = ds ∧
      (ds ++ ':' :: rest).dropWhile isDecimalDigit = ':' :: rest := by
  have stop : isDecimalDigit ':' = false := by decide
  rw [List.takeWhile_append_of_pos digits, List.dropWhile_append_of_pos digits]
  simp [stop]

theorem dropColumn_text {column : Option String} (digits : ∀ c ∈ column, IsColumn c)
    (rest : List Char) :
    dropColumn ((columnText column).toList ++ ':' :: ' ' :: rest) = ':' :: ' ' :: rest := by
  cases column with
  | none =>
    have stop : isDecimalDigit ' ' = false := by decide
    simp [columnText, dropColumn, stop]
  | some column =>
    obtain ⟨filled, all⟩ := digits column rfl
    obtain ⟨taken, left⟩ := @span_digits column.toList (' ' :: rest) all
    have text : (columnText (.some column)).toList = ':' :: column.toList := by simp [columnText]
    rw [text, List.cons_append, dropColumn, taken, left, if_neg (by simpa using filled)]

theorem position?_text (line : Nat) {column : Option String} (digits : ∀ c ∈ column, IsColumn c)
    (r : Report) :
    position? (':' :: ((toString line).toList ++
        ((columnText column).toList ++ ':' :: ' ' :: r.text.toList))) =
      some ((toString line).toList, r) := by
  obtain ⟨tail, colon⟩ : ∃ tail, (columnText column).toList ++ ':' :: ' ' :: r.text.toList =
      ':' :: tail := by
    cases column with
    | none => exact ⟨_, rfl⟩
    | some column => exact ⟨_, by rw [columnText, String.toList_append]; rfl⟩
  obtain ⟨taken, left⟩ := @span_digits (toString line).toList tail fun d mem =>
    isDecimalDigit_of_isDigit (isDigit_of_mem_nat line d mem)
  have behind := dropColumn_text digits r.text.toList
  rw [colon] at behind ⊢
  have some_digits : (toString line).toList.isEmpty = false := by
    have read := readDigits?_nat line
    rw [readDigits?] at read
    split at read <;> simp_all
  simp only [position?, taken, left, behind, some_digits, Report.ofChars?_text]
  rfl

def colonsApart (file : List Char) : Bool :=
  (file.zip file.tail).all fun (c, d) => c != ':' || !isDecimalDigit d

theorem split?_append {file tail : List Char} {found : List Char × Report} (named : file ≠ [])
    (apart : colonsApart file = true) (position : position? (':' :: tail) = some found) :
    split? (file ++ ':' :: tail) = some (file, found) := by
  induction file with
  | nil => exact absurd rfl named
  | cons c rest ih =>
    cases rest with
    | nil => rw [List.singleton_append, split?, position]
    | cons d more =>
      obtain ⟨here, later⟩ := Bool.and_eq_true_iff.1 apart
      have early : position? (d :: more ++ ':' :: tail) = none := by
        by_cases colon : d = ':'
        · subst colon
          have stop : (more ++ ':' :: tail).takeWhile isDecimalDigit = [] := by
            cases more with
            | nil => rfl
            | cons e others =>
              obtain ⟨next, -⟩ := Bool.and_eq_true_iff.1 later
              have absent : isDecimalDigit e = false := by simpa using next
              simp [absent]
          rw [List.cons_append, position?, stop]
          rfl
        · rw [List.cons_append, position?.eq_2 _ fun rest eq => colon (List.cons.inj eq).1]
      rw [List.cons_append, split?, early, ih (by simp) later]
      rfl

theorem ofLine?_text {l : Location} {column : Option String} (named : l.file ≠ "")
    (apart : colonsApart l.file.toList = true) (fits : l.line ≤ maxLong)
    (digits : ∀ c ∈ column, IsColumn c) (r : Report) :
    ofLine? (l.render ++ columnText column ++ ": " ++ r.text) = some (l, r) := by
  have text : (l.render ++ columnText column ++ ": " ++ r.text).toList =
      l.file.toList ++ (':' :: ((toString l.line).toList ++
        ((columnText column).toList ++ ':' :: ' ' :: r.text.toList))) := by
    simp [render]
  have split := split?_append (by simpa using named) apart (position?_text l.line digits r)
  rw [ofLine?, text, split]
  simp only [Option.bind_eq_bind, Option.bind_some, readWithin?_nat fits, String.ofList_toList]
  rfl

end Location

namespace Diagnostic

theorem located_report_read_back {l : Location} {r : Report} {column : Option String}
    {mainFile : String} (sketch : String) (named : l.file ≠ "") (flatFile : Flat l.file)
    (apart : Location.colonsApart l.file.toList = true)
    (own : endsWith l.file mainFile = true) (fits : l.line ≤ maxLong)
    (digits : ∀ c ∈ column, Location.IsColumn c) (flatMessage : Flat r.message) :
    ofOutput (l.render ++ Location.columnText column ++ ": " ++ r.text) mainFile sketch =
      [⟨l.line, r.severity, r.message, l.render, false⟩] := by
  have flat : Flat (l.render ++ Location.columnText column ++ ": " ++ r.text) := by
    have flatColumn : Flat (Location.columnText column) := by
      cases column with
      | none => exact flat_text rfl
      | some column =>
        refine (flat_append _ _).2 ⟨flat_text rfl, fun feed => ?_⟩
        exact absurd ((digits column rfl).2 _ feed) (by decide)
    have flatLabel : Flat r.severity.label := by cases r.severity <;> exact flat_text rfl
    simp only [Location.render, Report.text, flat_append]
    exact ⟨⟨⟨⟨⟨flatFile, flat_text rfl⟩, flat_nat _⟩, flatColumn⟩, flat_text rfl⟩,
      ⟨flatLabel, flat_text rfl⟩, flatMessage⟩
  have some_text : l.render ++ Location.columnText column ++ ": " ++ r.text ≠ "" := by
    simp [Location.render]
  rw [ofOutput, lines_of_flat flat some_text, ofLines,
    Location.ofLine?_text named apart fits digits]
  simp [ofReport?, own, ofLines]

theorem located_report_read_back_drive :
    ofOutput "C:\\sketch\\main.cpp:12:7: fatal error: a.h:3: error: no such file" "main.cpp" "" =
      [⟨12, .fatalError, "a.h:3: error: no such file", "C:\\sketch\\main.cpp:12", false⟩] :=
  @located_report_read_back ⟨"C:\\sketch\\main.cpp", 12⟩
    ⟨.fatalError, "a.h:3: error: no such file"⟩ (some "7") "main.cpp" "" (by decide) (by decide)
    (by decide) (by decide) (by decide) (by simp [Location.IsColumn]; decide) (by decide)

def nearest? (before : List String) : Option Location :=
  (before.reverse.findSome? Location.ofLine?).map Prod.fst

/-- What a line reports: it says where, or it is about the nearest location before it. -/
def reported? (before : List String) (line : String) : Option (Location × Report) :=
  (Location.ofLine? line).or do
    let report ← Report.ofLine? line
    let location ← nearest? before
    return (location, report)

variable {mainFile sketch : String} {d : Diagnostic}

theorem ofLines_cons (before : List String) (line : String) (rest : List String) :
    ofLines mainFile sketch (nearest? before) (line :: rest) =
      ((reported? before line).bind fun (l, r) => ofReport? mainFile sketch l r).toList ++
        ofLines mainFile sketch (nearest? (before ++ [line])) rest := by
  rw [ofLines, reported?]
  split
  next location report located => simp [nearest?, located]
  next other =>
    have same : nearest? (before ++ [line]) = nearest? before := by simp [nearest?, other]
    rw [other, same, Option.none_or]
    cases Report.ofLine? line <;> cases nearest? before <;> rfl

theorem mem_ofLines_iff (before rest : List String) :
    d ∈ ofLines mainFile sketch (nearest? before) rest ↔
      ∃ u line v l r, rest = u ++ line :: v ∧ reported? (before ++ u) line = some (l, r) ∧
        ofReport? mainFile sketch l r = some d := by
  induction rest generalizing before with
  | nil => simp [ofLines]
  | cons line rest ih =>
    rw [ofLines_cons, List.mem_append, ih, Option.mem_toList,
      Option.bind_eq_some_iff]
    constructor
    · rintro (⟨⟨l, r⟩, known, kept⟩ | ⟨u, later, v, l, r, rfl, known, kept⟩)
      · exact ⟨[], line, rest, l, r, rfl, by rwa [List.append_nil], kept⟩
      · exact ⟨line :: u, later, v, l, r, rfl, by simpa using known, kept⟩
    · rintro ⟨_ | ⟨first, u⟩, later, v, l, r, eq, known, kept⟩
      · obtain ⟨rfl, rfl⟩ := List.cons.inj eq
        exact Or.inl ⟨(l, r), by rwa [List.append_nil] at known, kept⟩
      · obtain ⟨rfl, rfl⟩ := List.cons.inj eq
        exact Or.inr ⟨u, later, v, l, r, rfl, by simpa using known, kept⟩

theorem ofReport?_own_iff {l : Location} {r : Report} :
    ofReport? mainFile sketch l r = some d ∧ d.ambiguous = false ↔
      endsWith l.file mainFile = true ∧ d = ⟨l.line, r.severity, r.message, l.render, false⟩ := by
  unfold ofReport?
  split
  next own => grind
  next other =>
    simp only [other, relocated?, Option.bind_eq_bind, Option.bind_eq_some_iff]
    grind

def isSeparator (c : Char) : Bool := c == '/' || c == '\\'

def fileName (file : String) : String := String.ofList (file.toList.rtakeWhile (!isSeparator ·))

theorem endsWith_iff_fileName {file last : String}
    (plain : ∀ c ∈ last.toList, isSeparator c = false) :
    endsWith file last = true ↔ ∃ stem, fileName file = stem ++ last := by
  rw [endsWith, List.isSuffixOf_iff_suffix, fileName]
  constructor
  · rintro ⟨before, eq⟩
    refine ⟨String.ofList (before.rtakeWhile (!isSeparator ·)), ?_⟩
    have all : ∀ c ∈ last.toList.reverse, (!isSeparator c) = true := by simpa using plain
    rw [← String.toList_inj, String.toList_append, String.toList_ofList, String.toList_ofList, ← eq,
      List.rtakeWhile, List.rtakeWhile, List.reverse_append, List.takeWhile_append_of_pos all,
      List.reverse_append, List.reverse_reverse]
  · rintro ⟨stem, eq⟩
    have tail : last.toList <:+ file.toList.rtakeWhile (!isSeparator ·) :=
      ⟨stem.toList, by rw [← String.toList_append, ← eq, String.toList_ofList]⟩
    exact tail.trans (List.rtakeWhile_suffix _ _)

/-- A report is kept as one about the main file exactly if the name of the file it is about ends
with that of the main file, whatever stands before it. -/
theorem own_reports_by_suffix (plain : ∀ c ∈ mainFile.toList, isSeparator c = false)
    (output : String) :
    d ∈ ofOutput output mainFile sketch ∧ d.ambiguous = false ↔
      ∃ before line after l r stem, lines output = before ++ line :: after ∧
        reported? before line = some (l, r) ∧ fileName l.file = stem ++ mainFile ∧
        d = ⟨l.line, r.severity, r.message, l.render, false⟩ := by
  rw [ofOutput, show none = nearest? [] from rfl, mem_ofLines_iff]
  constructor
  · rintro ⟨⟨u, line, v, l, r, eq, known, kept⟩, own⟩
    obtain ⟨ends, same⟩ := ofReport?_own_iff.1 ⟨kept, own⟩
    obtain ⟨stem, named⟩ := (endsWith_iff_fileName plain).1 ends
    exact ⟨u, line, v, l, r, stem, eq, known, named, same⟩
  · rintro ⟨u, line, v, l, r, stem, eq, known, named, same⟩
    obtain ⟨kept, own⟩ := (@ofReport?_own_iff mainFile sketch d l r).2
      ⟨(endsWith_iff_fileName plain).2 ⟨stem, named⟩, same⟩
    exact ⟨⟨u, line, v, l, r, eq, known, kept⟩, own⟩

theorem own_reports_by_suffix_other_file :
    fileName "lib/domain.cpp" ≠ "main.cpp" ∧
      ⟨3, .note, "y", "lib/domain.cpp:3", false⟩ ∈
        ofOutput "lib/domain.cpp:3:1: error: x\n note: y" "main.cpp" "" :=
  ⟨by decide, ((own_reports_by_suffix (by simp [isSeparator]) _).2
    ⟨["lib/domain.cpp:3:1: error: x"], " note: y", [], ⟨"lib/domain.cpp", 3⟩, ⟨.note, "y"⟩, "do",
      by decide, by decide, by decide, rfl⟩).1⟩

end Diagnostic

end BasicSketch
