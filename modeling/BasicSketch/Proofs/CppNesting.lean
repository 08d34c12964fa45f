import BasicSketch.Proofs.Flat
import BasicSketch.Proofs.Trimming
import BasicSketch.Sketch.Basic
import Mathlib.Data.List.Infix

set_option autoImplicit false

/-! The constructs of C++ around a line of code. -/

namespace BasicSketch

namespace Cpp

inductive Construct where
  | forLoop | whileLoop | doLoop | switch
  | other
  deriving DecidableEq, Repr

def headings : List (String × Construct) :=
  [("for (", .forLoop), ("while (", .whileLoop), ("do ", .doLoop), ("switch (", .switch),
   ("if (", .other), ("struct ", .other), ("enum ", .other)]

def heading? (cs : List Char) : Option Construct :=
  (headings.find? fun heading => heading.1.toList.isPrefixOf cs).map Prod.snd

inductive Bearing where
  | stays
  | opens (construct : Construct)
  | closes
  deriving DecidableEq, Repr

def bearing (line : String) : Bearing :=
  let cs := Text.dropBlanks line.toList
  match cs.head? == some '\x7d', cs.getLast? == some '\x7b' with
  | true, false => .closes
  | false, true => ((heading? cs).map Bearing.opens).getD .stays
  | _, _ => .stays

/-- The constructs behind a line, innermost first, each with the number of the line that opened
it. -/
def Bearing.turn (number : Nat) (around : List (Nat × Construct)) :
    Bearing → List (Nat × Construct)
  | .stays => around
  | .opens construct => (number, construct) :: around
  | .closes => around.tail

def follow (number : Nat) (around : List (Nat × Construct)) : List String → List (Nat × Construct)
  | [] => around
  | line :: rest => follow (number + 1) ((bearing line).turn number around) rest

/-- The constructs that are open behind the lines of a body, which are numbered from zero. -/
def enclosing (lines : List String) : List (Nat × Construct) := follow 0 [] lines

theorem follow_append (ls more : List String) :
    ∀ number around, follow number around (ls ++ more) =
      follow (number + ls.length) (follow number around ls) more := by
  induction ls with
  | nil => exact fun _ _ => rfl
  | cons line rest ih =>
    intro number around
    rw [List.cons_append, follow, follow, ih, List.length_cons, Nat.add_right_comm, Nat.add_assoc]

theorem enclosing_append (ls more : List String) :
    enclosing (ls ++ more) = follow ls.length (enclosing ls) more := by
  rw [enclosing, follow_append, Nat.zero_add, enclosing]

theorem follow_increasing {ls : List String} :
    ∀ {number : Nat} {around : List (Nat × Construct)},
      (∀ c ∈ around, c.1 < number) → (around.map Prod.fst).Pairwise (· > ·) →
      ((follow number around ls).map Prod.fst).Pairwise (· > ·) := by
  induction ls with
  | nil => exact fun _ sorted => sorted
  | cons line rest ih =>
    intro number around below sorted
    rw [follow]
    cases bearing line with
    | stays => exact ih (fun c mem => Nat.lt_succ_of_lt (below c mem)) sorted
    | opens construct =>
      refine ih (List.forall_mem_cons.2 ⟨Nat.lt_succ_self _, fun c mem => ?_⟩) ?_
      · exact Nat.lt_succ_of_lt (below c mem)
      · refine List.pairwise_cons.2 ⟨fun n mem => ?_, sorted⟩
        obtain ⟨c, inside, rfl⟩ := List.mem_map.1 mem
        exact below c inside
    | closes =>
      refine ih (fun c mem => Nat.lt_succ_of_lt (below c (List.mem_of_mem_tail mem))) ?_
      rw [Bearing.turn, List.map_tail]
      exact sorted.tail

open Text

theorem dropBlanks_of_head? {c : Char} {cs : List Char} (head : cs.head? = some c)
    (dark : isBlank c = false) : dropBlanks cs = cs :=
  dropBlanks_eq_self (by simp [head, dark])

variable {text : String}

theorem dropBlanks_of_leads (leads : LeadsStatement text) :
    dropBlanks text.toList = text.toList := by
  obtain ⟨c, head, leading⟩ := (Option.any_eq_true _ _).1 leads.1
  exact dropBlanks_of_head? head (by simpa using (Bool.and_eq_true_iff.1 leading).1)

def Stays (text : String) : Prop := bearing text = .stays

theorem stays_of_ends {last : Char} (leads : LeadsStatement text) (ends : Ends last text)
    (other : last ≠ '\x7b') : Stays text := by
  have head : (text.toList.head? == some '\x7d') = false := by simpa using leads.2
  have final : (text.toList.getLast? == some '\x7b') = false := by
    rw [show text.toList.getLast? = some last from ends]
    simpa using other
  simp only [Stays, bearing, dropBlanks_of_leads leads, head, final]

theorem stays_remark (rest : String) : Stays ("//" ++ rest) := by
  have blanks : dropBlanks ("//" ++ rest).toList = '/' :: '/' :: rest.toList := by
    rw [String.toList_append]
    rfl
  have known : heading? ('/' :: '/' :: rest.toList) = none := rfl
  simp only [Stays, bearing, blanks, known, List.head?_cons]
  split <;> first | rfl | contradiction

theorem stays_of_divides (begins : Begins '\x7d' text) (ends : Ends '\x7b' text) : Stays text := by
  simp [Stays, bearing, dropBlanks_of_head? begins rfl, show text.toList.head? = _ from begins,
    show text.toList.getLast? = _ from ends]

theorem bearing_closes {last : Char} (begins : Begins '\x7d' text) (ends : Ends last text)
    (other : last ≠ '\x7b') : bearing text = .closes := by
  have final : (last == '\x7b') = false := by simpa using other
  simp [bearing, dropBlanks_of_head? begins rfl, show text.toList.head? = _ from begins,
    show text.toList.getLast? = _ from ends, final]

theorem bearing_opens {construct : Construct} (leads : LeadsStatement text)
    (known : heading? text.toList = some construct) (ends : Ends '\x7b' text) :
    bearing text = .opens construct := by
  have head : (text.toList.head? == some '\x7d') = false := by simpa using leads.2
  simp [bearing, dropBlanks_of_leads leads, head, known, show text.toList.getLast? = _ from ends]

theorem bearing_indent (depth : Nat) (text : String) :
    bearing (SketchLine.indent depth ++ text) = bearing text := by
  have blanks : dropBlanks (SketchLine.indent depth ++ text).toList = dropBlanks text.toList := by
    rw [String.toList_append, SketchLine.indent, String.toList_ofList, dropBlanks, dropBlanks]
    exact List.dropWhile_append_of_pos fun c mem => by
      rw [List.eq_of_mem_replicate mem]
      rfl
  simp only [bearing, blanks]

def Heads (construct : Construct) (text : String) : Prop :=
  ∃ heading ∈ headings, heading.2 = construct ∧ heading.1.toList <+: text.toList

variable {construct : Construct}

theorem Heads.append (heads : Heads construct text) (rest : String) :
    Heads construct (text ++ rest) := by
  obtain ⟨heading, mem, same, begins⟩ := heads
  refine ⟨heading, mem, same, ?_⟩
  rw [String.toList_append]
  exact begins.trans (List.prefix_append _ _)

theorem Heads.heading? (heads : Heads construct text) :
    Cpp.heading? text.toList = some construct := by
  -- no line begins like two constructs
  have apart : ∀ h ∈ headings, ∀ h' ∈ headings, h.1.toList <+: h'.1.toList → h.2 = h'.2 := by
    decide
  obtain ⟨heading, mem, same, begins⟩ := heads
  have known : (headings.find? fun h => h.1.toList.isPrefixOf text.toList).isSome = true :=
    List.find?_isSome.2 ⟨heading, mem, List.isPrefixOf_iff_prefix.2 begins⟩
  obtain ⟨found, eq⟩ := Option.isSome_iff_exists.1 known
  have other := List.mem_of_find?_eq_some eq
  have begins' : found.1.toList <+: text.toList :=
    List.isPrefixOf_iff_prefix.1 (by simpa using List.find?_some eq)
  rw [Cpp.heading?, eq, ← same]
  rcases List.prefix_or_prefix_of_prefix begins' begins with shorter | longer
  · exact congrArg some (apart found other heading mem shorter)
  · exact congrArg some (apart heading mem found other longer).symm

theorem Heads.leads {construct : Construct} {text : String} (heads : Heads construct text) :
    LeadsStatement text := by
  have all : ∀ h ∈ headings, LeadsStatement h.1 := by decide
  obtain ⟨heading, mem, -, more, eq⟩ := heads
  have whole : heading.1 ++ String.ofList more = text := by
    rw [← String.toList_inj, String.toList_append, String.toList_ofList, eq]
  exact whole ▸ leadsStatement_append _ (all heading mem)

variable {cs : List Char}

theorem heads_ofList
    (begins : ∃ heading ∈ headings, heading.2 = construct ∧ heading.1.toList <+: cs) :
    Heads construct (String.ofList cs) := by
  simpa [Heads] using begins

theorem bearing_of_heads (heads : Heads construct text) (ends : Ends '\x7b' text) :
    bearing text = .opens construct :=
  bearing_opens heads.leads heads.heading? ends

theorem stays_statement (leads : LeadsStatement text) (ends : Ends ';' text) : Stays text :=
  stays_of_ends leads ends (by decide)

theorem stays_around {lead ending : List Char} (middle : String)
    (leads : lead.head?.any (fun c => !isBlank c && c != '/') = true ∧ lead.head? ≠ some '\x7d')
    (ends : ending.getLast? = some ';') :
    Stays (String.ofList lead ++ middle ++ String.ofList ending) :=
  stays_statement (leadsStatement_append _ (leadsStatement_append _ (leadsStatement_ofList leads)))
    ((ends_ofList ends).after _)

theorem stays_noted (remark : ['/', '/'].isPrefixOf cs = true) (rest : String) :
    Stays (String.ofList cs ++ rest) := by
  obtain ⟨words, rfl⟩ := List.isPrefixOf_iff_prefix.1 remark
  rw [String.ofList_append, String.append_assoc]
  exact stays_remark _

theorem leadsStatement_object {object tail : String}
    (plain : ∀ c ∈ object.toList, isNameChar c = true)
    (leads : LeadsStatement tail) : LeadsStatement (object ++ tail) := by
  cases eq : object.toList with
  | nil => simpa [String.toList_eq_nil_iff.1 eq] using leads
  | cons c rest =>
    have name : isNameChar c = true := plain c (by simp [eq])
    refine leadsStatement_append _ ⟨by simpa [LeadsCode, eq] using leads_of_isNameChar name, ?_⟩
    rw [eq]
    rintro ⟨⟩
    exact absurd name (by decide)

end Cpp

namespace SketchLine

def bearing (line : SketchLine) : Cpp.Bearing := Cpp.bearing line.render

@[simp] theorem bearing_code (origin : Origin) (depth : Nat) (text : String) :
    (code origin depth text).bearing = Cpp.bearing text :=
  Cpp.bearing_indent depth text

@[simp] theorem bearing_marker (origin : Origin) (depth source : Nat) :
    (marker origin depth source).bearing = .stays := by
  have remark : markerStart = "//" ++ " __VB_LINE__:" := by decide
  rw [bearing, render, String.append_assoc, Cpp.bearing_indent, remark, String.append_assoc]
  exact Cpp.stays_remark _

def enclosing (lines : List SketchLine) : List (Nat × Cpp.Construct) :=
  Cpp.enclosing (lines.map render)

def Neutral (lines : List SketchLine) : Prop :=
  ∀ number around, Cpp.follow number around (lines.map render) = around

theorem neutral_append {ls more : List SketchLine} (first : Neutral ls) (second : Neutral more) :
    Neutral (ls ++ more) := by
  intro number around
  rw [List.map_append, Cpp.follow_append, first, second]

theorem neutral_of_stays {ls : List SketchLine} (stays : ∀ l ∈ ls, l.bearing = .stays) :
    Neutral ls := by
  induction ls with
  | nil => exact fun _ _ => rfl
  | cons l rest ih =>
    obtain ⟨here, later⟩ := List.forall_mem_cons.1 stays
    intro number around
    rw [List.map_cons, Cpp.follow, show Cpp.bearing l.render = .stays from here]
    exact ih later _ _

end SketchLine

end BasicSketch
