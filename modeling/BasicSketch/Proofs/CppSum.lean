import BasicSketch.Proofs.CppReading

set_option autoImplicit false

/-! Sums in C++. -/

namespace BasicSketch.Cpp.Sum

def marks : List String :=
  ["<=>", "<<=", ">>=", "...", "->*", "::", ".*", "->", "++", "--", "<<", ">>", "<=", ">=", "==",
   "!=", "&&", "||", "+=", "-=", "*=", "/=", "%=", "&=", "|=", "^=", "##", "<:", ":>", "<%", "%>",
   "%:", "+", "-", "*", "/", "%", "&", "|", "^", "!", "~", "<", ">", "=", "?", ":", ",", ";", ".",
   "#", "(", ")", "[", "]", "\x7b", "\x7d"]

def numberLength : (afterMark : Bool) → List Char → Nat
  | _, [] => 0
  | afterMark, c :: rest =>
    if goesOnNumber c || afterMark && (c == '+' || c == '-') then
      numberLength (c == 'e' || c == 'E' || c == 'p' || c == 'P') rest + 1
    else 0

def quotedLength? (quote : Char) : (escaped : Bool) → List Char → Option Nat
  | _, [] => none
  | escaped, c :: rest =>
    if !escaped && c == quote then some 1
    else (quotedLength? quote (!escaped && c == '\\') rest).map (· + 1)

def tokenLength? (c : Char) (rest : List Char) : Option Nat :=
  if c.isDigit || c == '.' && rest.head?.any Char.isDigit then
    some (numberLength false (c :: rest))
  else if Text.isNameChar c then some ((c :: rest).takeWhile Text.isNameChar).length
  else if c == '"' || c == '\'' then (quotedLength? c false rest).map (· + 1)
  else if c == '/' && rest.head?.any (fun d => d == '/' || d == '*') then none
  else (marks.find? fun mark => mark.toList.isPrefixOf (c :: rest)).map String.length

def tokens? : List Char → Option (List String)
  | [] => some []
  | c :: rest =>
    if isSpace c then tokens? rest
    else do
      let length ← tokenLength? c rest
      let more ← tokens? (rest.drop (length - 1))
      some (String.ofList (c :: rest.take (length - 1)) :: more)
termination_by cs => cs.length
decreasing_by
  all_goals
    simp only [List.length_cons, List.length_drop]
    omega

def isStop (d : Char) : Bool := d == ' ' || d == ')'

section Stop

variable {d : Char} {cs : List Char}

theorem eq_of_isStop (stop : isStop d = true) : d = ' ' ∨ d = ')' := by
  simpa [isStop] using stop

theorem numberLength_stop (stop : isStop d = true) (more : List Char) :
    ∀ cs afterMark, numberLength afterMark (cs ++ d :: more) = numberLength afterMark cs ∧
      numberLength afterMark cs ≤ cs.length := by
  intro cs
  induction cs with
  | nil =>
    intro afterMark
    obtain rfl | rfl := eq_of_isStop stop <;> cases afterMark <;> simp [numberLength] <;> decide
  | cons c rest ih =>
    intro afterMark
    simp only [List.cons_append, numberLength]
    split
    · rw [(ih _).1]
      exact ⟨rfl, Nat.succ_le_succ (ih _).2⟩
    · exact ⟨rfl, Nat.zero_le _⟩

theorem quotedLength?_append {quote : Char} {n : Nat} (more : List Char) :
    ∀ {cs escaped}, quotedLength? quote escaped cs = some n →
      quotedLength? quote escaped (cs ++ more) = some n ∧ n ≤ cs.length := by
  intro cs
  induction cs generalizing n with
  | nil => intro escaped found; simp [quotedLength?] at found
  | cons c rest ih =>
    intro escaped found
    simp only [List.cons_append, quotedLength?] at found ⊢
    split at found
    · rename_i closes
      obtain rfl := Option.some.inj found
      rw [if_pos closes]
      exact ⟨rfl, by simp⟩
    · rename_i goesOn
      obtain ⟨k, eq, rfl⟩ := Option.map_eq_some_iff.1 found
      rw [if_neg goesOn, (ih eq).1]
      exact ⟨rfl, Nat.succ_le_succ (ih eq).2⟩

theorem takeWhile_stop (stop : isStop d = true) (more : List Char) :
    (cs ++ d :: more).takeWhile Text.isNameChar = cs.takeWhile Text.isNameChar := by
  induction cs with
  | nil =>
    have other : Text.isNameChar d = false := by
      obtain rfl | rfl := eq_of_isStop stop <;> decide
    simp [other]
  | cons c rest ih => rw [List.cons_append, List.takeWhile_cons, List.takeWhile_cons, ih]

theorem isPrefixOf_stop {mark : List Char} (apart : d ∉ mark) (more : List Char) :
    mark.isPrefixOf (cs ++ d :: more) = mark.isPrefixOf cs := by
  induction mark generalizing cs with
  | nil => simp
  | cons m rest ih =>
    cases cs with
    | nil =>
      have other : (m == d) = false := by
        simpa using fun same : m = d => apart (same ▸ List.mem_cons_self)
      simp [List.isPrefixOf, other]
    | cons c cs =>
      simp only [List.cons_append, List.isPrefixOf]
      rw [ih fun mem => apart (List.mem_cons_of_mem _ mem)]

theorem mark_stop (stop : isStop d = true) {mark : String} (mem : mark ∈ marks) (c : Char)
    (more : List Char) :
    mark.toList.isPrefixOf (c :: cs ++ d :: more) = mark.toList.isPrefixOf (c :: cs) := by
  have shape : ∀ mark ∈ marks, (' ' ∉ mark.toList ∨ mark.toList = [' ']) ∧
      (')' ∉ mark.toList ∨ mark.toList = [')']) := by decide
  have known : d ∉ mark.toList ∨ mark.toList = [d] := by
    rcases eq_of_isStop stop with rfl | rfl
    · exact (shape mark mem).1
    · exact (shape mark mem).2
  rcases known with apart | single
  · exact isPrefixOf_stop apart more
  · simp [single, List.isPrefixOf]

theorem find?_marks_stop (stop : isStop d = true) (c : Char) (more : List Char) :
    marks.find? (fun mark => mark.toList.isPrefixOf (c :: cs ++ d :: more)) =
      marks.find? fun mark => mark.toList.isPrefixOf (c :: cs) := by
  have same : ∀ mark ∈ marks, mark.toList.isPrefixOf (c :: cs ++ d :: more) =
      mark.toList.isPrefixOf (c :: cs) := fun mark mem => mark_stop stop mem c more
  generalize marks = marks at same
  induction marks with
  | nil => rfl
  | cons mark rest ih =>
    rw [List.find?_cons, List.find?_cons, same mark List.mem_cons_self,
      ih fun mark mem => same mark (List.mem_cons_of_mem _ mem)]

theorem tokenLength?_stop (stop : isStop d = true) {c : Char} {n : Nat}
    (found : tokenLength? c cs = some n) (more : List Char) :
    tokenLength? c (cs ++ d :: more) = some n ∧ n - 1 ≤ cs.length := by
  have head (p : Char → Bool) (other : ∀ d, isStop d = true → p d = false) :
      (cs ++ d :: more).head?.any p = cs.head?.any p := by
    cases cs <;> simp [other d stop]
  have digit := head Char.isDigit fun d stop => by
    obtain rfl | rfl := eq_of_isStop stop <;> decide
  have comment := head (fun d => d == '/' || d == '*') fun d stop => by
    obtain rfl | rfl := eq_of_isStop stop <;> decide
  unfold tokenLength? at found ⊢
  rw [digit, comment, ← List.cons_append, takeWhile_stop stop, find?_marks_stop stop]
  split at found
  · rename_i number
    have length := numberLength_stop stop more (c :: cs) false
    rw [if_pos number, length.1]
    obtain rfl := Option.some.inj found
    exact ⟨rfl, Nat.sub_le_of_le_add length.2⟩
  rename_i number
  rw [if_neg number]
  split at found
  · rename_i name
    rw [if_pos name]
    obtain rfl := Option.some.inj found
    refine ⟨rfl, Nat.sub_le_of_le_add ?_⟩
    exact (List.takeWhile_prefix _).length_le
  rename_i name
  rw [if_neg name]
  split at found
  · rename_i quote
    obtain ⟨k, eq, rfl⟩ := Option.map_eq_some_iff.1 found
    obtain ⟨same, fits⟩ := quotedLength?_append (d :: more) eq
    rw [if_pos quote, same]
    exact ⟨rfl, fits⟩
  rename_i quote
  rw [if_neg quote]
  split at found
  · cases found
  rename_i plain
  rw [if_neg plain]
  obtain ⟨mark, eq, rfl⟩ := Option.map_eq_some_iff.1 found
  rw [eq]
  have begins : mark.toList.isPrefixOf (c :: cs) = true :=
    List.find?_some (p := fun mark : String => mark.toList.isPrefixOf (c :: cs)) eq
  have fits := (List.isPrefixOf_iff_prefix.1 begins).length_le
  exact ⟨rfl, Nat.sub_le_of_le_add (by simpa [String.length_toList] using fits)⟩

theorem tokens?_stop (stop : isStop d = true) {ts : List String} (found : tokens? cs = some ts)
    (more : List Char) :
    tokens? (cs ++ d :: more) = (tokens? (d :: more)).map (ts ++ ·) := by
  fun_induction tokens? cs generalizing ts with
  | case1 =>
    obtain rfl := Option.some.inj found
    simp
  | case2 c rest space ih =>
    rw [List.cons_append, tokens?, if_pos space]
    exact ih found
  | case3 c rest dark ih =>
    obtain ⟨length, here, found⟩ := Option.bind_eq_some_iff.1 found
    obtain ⟨others, behind, found⟩ := Option.bind_eq_some_iff.1 found
    obtain rfl := Option.some.inj found
    obtain ⟨same, fits⟩ := tokenLength?_stop stop here more
    rw [List.cons_append, tokens?, if_neg dark, same]
    have cut : (rest ++ d :: more).drop (length - 1) = rest.drop (length - 1) ++ d :: more :=
      List.drop_append_of_le_length fits
    have kept : (rest ++ d :: more).take (length - 1) = rest.take (length - 1) :=
      List.take_append_of_le_length fits
    simp only [Option.bind_eq_bind, Option.bind_some, cut, kept, ih length behind]
    cases tokens? (d :: more) <;> rfl

end Stop

inductive Node where
  | token (text : String)
  | group (opener : String) (inside : List Node)

def closer? : String → Option String
  | "(" => some ")"
  | "[" => some "]"
  | "\x7b" => some "\x7d"
  | _ => none

def isCloser (t : String) : Bool := t == ")" || t == "]" || t == "\x7d"

structure Grouping where
  opened : List (String × List Node)
  current : List Node

namespace Grouping

def step? (g : Grouping) (t : String) : Option Grouping :=
  if (closer? t).isSome then some ⟨(t, g.current) :: g.opened, []⟩
  else if isCloser t then
    match g.opened with
    | [] => none
    | (opener, before) :: outer =>
      if closer? opener = some t then some ⟨outer, before ++ [.group opener g.current]⟩ else none
  else some { g with current := g.current ++ [.token t] }

def finish? (g : Grouping) : Option (List Node) :=
  if g.opened.isEmpty then some g.current else none

def behind (base : List Node) : List (String × List Node) → List (String × List Node)
  | [] => []
  | [(opener, before)] => [(opener, base ++ before)]
  | level :: outer => level :: behind base outer

def within (h g : Grouping) : Grouping where
  opened := behind h.current g.opened ++ h.opened
  current := if g.opened.isEmpty then h.current ++ g.current else g.current

theorem step?_within {g g' : Grouping} {t : String} (h : Grouping) (found : g.step? t = some g') :
    (h.within g).step? t = some (h.within g') := by
  obtain ⟨opened, current⟩ := g
  unfold step? at found ⊢
  split at found
  · rename_i opens
    obtain rfl := Option.some.inj found
    rw [if_pos opens]
    cases opened <;> simp [within, behind]
  · rename_i opens
    rw [if_neg opens]
    split at found
    · rename_i closes
      rw [if_pos closes]
      match opened, found with
      | [(opener, before)], found =>
        dsimp only at found
        split at found
        · rename_i same
          obtain rfl := Option.some.inj found
          simp [within, behind, same]
        · cases found
      | (opener, before) :: level :: outer, found =>
        dsimp only at found
        split at found
        · rename_i same
          obtain rfl := Option.some.inj found
          simp [within, behind, same]
        · cases found
    · rename_i closes
      rw [if_neg closes]
      obtain rfl := Option.some.inj found
      cases opened <;> simp [within, behind]

theorem steps?_within {ts : List String} (h : Grouping) :
    ∀ {g g' : Grouping}, ts.foldlM step? g = some g' →
      ts.foldlM step? (h.within g) = some (h.within g') := by
  induction ts with
  | nil =>
    intro g g' found
    obtain rfl := Option.some.inj found
    rfl
  | cons t ts ih =>
    intro g g' found
    rw [List.foldlM_cons] at found ⊢
    obtain ⟨next, here, found⟩ := Option.bind_eq_some_iff.1 found
    rw [step?_within h here]
    exact ih found

end Grouping

def nodes? (ts : List String) : Option (List Node) :=
  (ts.foldlM Grouping.step? ⟨[], []⟩).bind Grouping.finish?

variable {ns : List Node}

theorem steps?_of_nodes? {ts : List String} (found : nodes? ts = some ns) (h : Grouping) :
    ts.foldlM Grouping.step? h = some { h with current := h.current ++ ns } := by
  obtain ⟨g, steps, finished⟩ := Option.bind_eq_some_iff.1 found
  unfold Grouping.finish? at finished
  split at finished
  · rename_i closed
    obtain ⟨opened, current⟩ := g
    obtain rfl := List.isEmpty_iff.1 closed
    obtain rfl := Option.some.inj finished
    simpa [Grouping.within, Grouping.behind] using Grouping.steps?_within h steps
  · cases finished

def tightMarks : List String :=
  ["+", "-", "*", "/", "%", "!", "~", ".", "->", "::", ".*", "->*", "++", "--"]

def looseWords : List String :=
  ["and", "or", "xor", "bitand", "bitor", "not_eq", "and_eq", "or_eq", "xor_eq", "throw",
   "co_yield"]

/-- The reserved words that are values. -/
def valueWords : List String := ["true", "false", "nullptr", "this"]

def isOperand (word : String) : Bool := !reserved.contains word || valueWords.contains word

namespace Node

def endsOperand : Node → Bool
  | .token t => !marks.contains t && isOperand t
  | .group "(" [.token t] => isOperand t
  | .group _ _ => true

def isWord : Node → Bool
  | .token t => !marks.contains t
  | .group _ _ => false

def isList : Node → Bool
  | .token _ => false
  | .group _ _ => true

/-- A type in parentheses is a cast, unless the word before takes it, as in `sizeof(int)`. -/
def endTerm (ns : List Node) : Bool :=
  ns.getLast?.any endsOperand || ns.getLast?.any isList && ns.dropLast.getLast?.any isWord

@[simp] theorem endTerm_nil : endTerm [] = false := rfl

@[simp] theorem endTerm_singleton (n : Node) : endTerm [n] = n.endsOperand := by
  simp [endTerm]

def isSign : Node → Bool
  | .token t => t == "+" || t == "-"
  | .group _ _ => false

def isMinus : Node → Bool
  | .token t => t == "-"
  | .group _ _ => false

def isLoose : Node → Bool
  | .token t => marks.contains t && !tightMarks.contains t || looseWords.contains t
  | .group _ _ => false

end Node

structure Reading where
  sum : Int
  negative : Bool
  term : List Node
  /-- The value of the first node of the term, if it has one of its own. -/
  first : Option Int

namespace Reading

def start : Reading := ⟨0, false, [], none⟩

def termValue (ρ : List Node → Int) (r : Reading) : Int :=
  match r.term, r.first with
  | [_], some value => value
  | term, _ => ρ term

def finish? (ρ : List Node → Int) (r : Reading) : Option Int :=
  if Node.endTerm r.term then
    some (if r.negative then r.sum - r.termValue ρ else r.sum + r.termValue ρ)
  else none

def add (r : Reading) (n : Node) (value : Option Int) : Reading :=
  { r with term := r.term ++ [n], first := if r.term.isEmpty then value else r.first }

end Reading

mutual

/-- The value of a decimal number and of a sum in parentheses. -/
def ownValue? (ρ : List Node → Int) : Node → Option Int
  | .token t => (decimal? t.toList).map Int.ofNat
  | .group opener inside => if opener = "(" then sum? ρ .start inside else none

def sum? (ρ : List Node → Int) (r : Reading) : List Node → Option Int
  | [] => r.finish? ρ
  | n :: rest =>
    if n.isSign && r.term.isEmpty then sum? ρ { r with negative := r.negative != n.isMinus } rest
    else if n.isSign && Node.endTerm r.term then do
      let value ← r.finish? ρ
      sum? ρ ⟨value, n.isMinus, [], none⟩ rest
    else if n.isLoose then none
    else sum? ρ (r.add n (ownValue? ρ n)) rest

end

def value? (ρ : List Node → Int) (text : String) : Option Int :=
  ((tokens? text.toList).bind nodes?).bind (sum? ρ .start)

theorem sum?_plus {ρ : List Node → Int} {value : Int} (more : List Node) :
    ∀ {r : Reading}, sum? ρ r ns = some value →
      sum? ρ r (ns ++ .token "+" :: more) = sum? ρ ⟨value, false, [], none⟩ more := by
  induction ns with
  | nil =>
    intro r found
    rw [sum?] at found
    have ended : Node.endTerm r.term = true := by
      unfold Reading.finish? at found
      split at found
      · assumption
      · cases found
    have begun : r.term.isEmpty = false := by
      cases term : r.term with
      | nil => simp [term] at ended
      | cons => rfl
    rw [List.nil_append, sum?]
    simp [Node.isSign, Node.isMinus, begun, ended, found]
  | cons n rest ih =>
    intro r found
    rw [List.cons_append, sum?]
    rw [sum?] at found
    split at found
    · rename_i sign
      rw [if_pos sign]
      exact ih found
    rename_i sign
    rw [if_neg sign]
    split at found
    · rename_i ends
      rw [if_pos ends]
      obtain ⟨before, here, found⟩ := Option.bind_eq_some_iff.1 found
      rw [here]
      exact ih found
    rename_i ends
    rw [if_neg ends]
    split at found
    · cases found
    · rename_i tight
      rw [if_neg tight]
      exact ih found

theorem isSome_sum? (ρ ρ' : List Node → Int) :
    ∀ {r r' : Reading}, r.term = r'.term → (sum? ρ r ns).isSome = (sum? ρ' r' ns).isSome := by
  induction ns with
  | nil =>
    intro r r' same
    rw [sum?, sum?, Reading.finish?, Reading.finish?, same]
    split <;> rfl
  | cons n rest ih =>
    intro r r' same
    rw [sum?, sum?, same]
    split
    · exact ih rfl
    split
    · rename_i ends
      have finished := (Bool.and_eq_true_iff.1 ends).2
      rw [Reading.finish?, Reading.finish?, same, if_pos finished, if_pos finished]
      exact ih rfl
    split
    · rfl
    · exact ih (congrArg (· ++ [n]) same)

def isSum (text : String) : Bool := (value? (fun _ => 0) text).isSome

theorem exists_value {text : String} (sum : isSum text = true) (ρ : List Node → Int) :
    ∃ value, value? ρ text = some value := by
  refine Option.isSome_iff_exists.1 ?_
  unfold isSum value? at sum
  unfold value?
  cases nodes : (tokens? text.toList).bind nodes? with
  | none => simp [nodes] at sum
  | some ns =>
    rw [nodes, Option.bind_some] at sum
    rw [Option.bind_some, isSome_sum? ρ (fun _ => 0) rfl]
    exact sum

section Value

variable {ρ : List Node → Int} {text : String} {value : Int}

theorem value?_eq_some :
    value? ρ text = some value ↔ ∃ ts ns, tokens? text.toList = some ts ∧ nodes? ts = some ns ∧
      sum? ρ .start ns = some value := by
  unfold value?
  constructor
  · intro found
    obtain ⟨ns, found, sum⟩ := Option.bind_eq_some_iff.1 found
    obtain ⟨ts, tokens, nodes⟩ := Option.bind_eq_some_iff.1 found
    exact ⟨ts, ns, tokens, nodes, sum⟩
  · rintro ⟨ts, ns, tokens, nodes, sum⟩
    simp [tokens, nodes, sum]

theorem value?_add_one (known : value? ρ text = some value) :
    value? ρ (text ++ " + 1") = some (value + 1) := by
  obtain ⟨ts, ns, tokens, nodes, sum⟩ := value?_eq_some.1 known
  refine value?_eq_some.2 ⟨ts ++ ["+", "1"], ns ++ [.token "+", .token "1"], ?_, ?_, ?_⟩
  · have one : tokens? " + 1".toList = some ["+", "1"] := by decide +kernel
    have behind := tokens?_stop (d := ' ') rfl tokens "+ 1".toList
    rw [String.toList_append]
    exact behind.trans (congrArg (Option.map (ts ++ ·)) one)
  · have steps := steps?_of_nodes? nodes ⟨[], []⟩
    rw [nodes?, List.foldlM_append, steps]
    simp [Grouping.step?, Grouping.finish?, closer?, isCloser]
  · rw [sum?_plus [.token "1"] sum]
    rfl

theorem tokens?_leftParen (cs : List Char) : tokens? ('(' :: cs) = (tokens? cs).map ("(" :: ·) := by
  have length : tokenLength? '(' cs = some 1 := rfl
  rw [tokens?, if_neg (by decide), length]
  simp only [Option.bind_eq_bind, Option.bind_some, Nat.sub_self, List.drop_zero, List.take_zero]
  cases tokens? cs <;> rfl

theorem endsOperand_group (sum : sum? ρ .start ns = some value) :
    (Node.group "(" ns).endsOperand = true := by
  match ns, sum with
  | [], _ | .group _ _ :: _, _ | .token _ :: _ :: _, _ => rfl
  | [.token t], sum =>
    have ends : (Node.token t).endsOperand = true := by
      simp only [sum?, Reading.start, List.isEmpty_nil, Bool.and_true, Node.endTerm_nil,
        Bool.and_false, Bool.false_eq_true, if_false] at sum
      split at sum
      · simp [Reading.finish?] at sum
      split at sum
      · cases sum
      · simp only [Reading.finish?, Reading.add, List.nil_append,
          Node.endTerm_singleton] at sum
        split at sum
        · assumption
        · cases sum
    exact (Bool.and_eq_true_iff.1 ends).2

theorem value?_paren (known : value? ρ text = some value) :
    value? ρ ("(" ++ text ++ ")") = some value := by
  obtain ⟨ts, ns, tokens, nodes, sum⟩ := value?_eq_some.1 known
  refine value?_eq_some.2 ⟨"(" :: (ts ++ [")"]), [.group "(" ns], ?_, ?_, ?_⟩
  · have closing : tokens? ")".toList = some [")"] := by decide +kernel
    have behind := (tokens?_stop (d := ')') rfl tokens []).trans
      (congrArg (Option.map (ts ++ ·)) closing)
    rw [String.toList_append, String.toList_append]
    exact (tokens?_leftParen _).trans (congrArg (Option.map ("(" :: ·)) behind)
  · have steps := steps?_of_nodes? nodes ⟨[("(", [])], []⟩
    have opening : Grouping.step? ⟨[], []⟩ "(" = some ⟨[("(", [])], []⟩ := rfl
    rw [nodes?, List.foldlM_cons, opening]
    simp only [Option.bind_eq_bind, Option.bind_some]
    rw [List.foldlM_append, steps]
    rfl
  · simp [sum?, Reading.start, Reading.add, Reading.finish?, Reading.termValue, Node.isSign,
      Node.isLoose, ownValue?, endsOperand_group sum,
      show sum? ρ ⟨0, false, [], none⟩ ns = _ from sum]

variable {cs : List Char} {n : Nat}

theorem numberLength_digits (digits : ∀ d ∈ cs, d.isDigit = true) :
    ∀ afterMark, numberLength afterMark cs = cs.length := by
  induction cs with
  | nil => exact fun _ => rfl
  | cons c rest ih =>
    intro afterMark
    have digit : goesOnNumber c = true := by
      simp [goesOnNumber, Text.isNameChar, Char.isAlphanum, digits c List.mem_cons_self]
    rw [numberLength, digit, Bool.true_or, if_pos rfl,
      ih fun d mem => digits d (List.mem_cons_of_mem _ mem)]
    rfl

theorem digits_of_decimal? (known : decimal? cs = some n) :
    cs ≠ [] ∧ ∀ d ∈ cs, d.isDigit = true := by
  unfold decimal? at known
  split at known
  · cases known
  · unfold Text.readDigits? at known
    split at known
    · cases known
    · rename_i digits
      simpa using digits

theorem tokens?_digits (some_digit : cs ≠ []) (digits : ∀ d ∈ cs, d.isDigit = true) :
    tokens? cs = some [String.ofList cs] := by
  cases cs with
  | nil => exact absurd rfl some_digit
  | cons c rest =>
    have digit := digits c List.mem_cons_self
    have dark : ¬isSpace c = true := by
      intro space
      simp only [isSpace, Bool.or_eq_true, beq_iff_eq] at space
      rcases space with ((((rfl | rfl) | rfl) | rfl) | rfl) | rfl <;> simp at digit
    have length : tokenLength? c rest = some (rest.length + 1) := by
      simp [tokenLength?, digit, numberLength_digits digits]
    rw [tokens?, if_neg dark, length]
    simp [tokens?]

theorem decimal_not_mem (known : decimal? cs = some n) (words : List String)
    (others : ∀ word ∈ words, word.toList.head?.any Char.isDigit = false) :
    String.ofList cs ∉ words := by
  obtain ⟨some_digit, digits⟩ := digits_of_decimal? known
  intro mem
  have head := others _ mem
  cases cs with
  | nil => exact some_digit rfl
  | cons c rest => simp [digits c List.mem_cons_self] at head

theorem step?_decimal (known : decimal? cs = some n) (g : Grouping) :
    g.step? (String.ofList cs) =
      some { g with current := g.current ++ [.token (String.ofList cs)] } := by
  have brackets := decimal_not_mem known ["(", "[", "\x7b", ")", "]", "\x7d"] (by decide)
  generalize String.ofList cs = t at brackets
  have opens : closer? t = none := by
    unfold closer?
    split <;> simp_all
  have closes : isCloser t = false := by
    simp_all [isCloser]
  simp [Grouping.step?, opens, closes]

theorem sum?_decimal (known : decimal? cs = some n) :
    sum? ρ .start [.token (String.ofList cs)] = some (n : Int) := by
  have mark := decimal_not_mem known marks (by decide)
  have sign := decimal_not_mem known ["+", "-"] (by decide)
  have word := decimal_not_mem known reserved (by decide +kernel)
  have loose := decimal_not_mem known looseWords (by decide +kernel)
  have isSign : (Node.token (String.ofList cs)).isSign = false := by
    simpa [Node.isSign] using sign
  have isLoose : (Node.token (String.ofList cs)).isLoose = false := by
    simp [Node.isLoose, mark, loose]
  have ends : (Node.token (String.ofList cs)).endsOperand = true := by
    simp [Node.endsOperand, isOperand, mark, word]
  simp [sum?, isSign, isLoose, ends, Reading.start, Reading.add, Reading.finish?,
    Reading.termValue, ownValue?, known]

theorem nodes?_decimal (known : decimal? cs = some n) :
    nodes? [String.ofList cs] = some [.token (String.ofList cs)] := by
  rw [nodes?, List.foldlM_cons, step?_decimal known]
  rfl

theorem value?_decimal {cs : List Char} {n : Nat} (known : decimal? cs = some n) :
    value? ρ (String.ofList cs) = some (n : Int) := by
  obtain ⟨some_digit, digits⟩ := digits_of_decimal? known
  have tokens : tokens? (String.ofList cs).toList = some [String.ofList cs] := by
    rw [String.toList_ofList]
    exact tokens?_digits some_digit digits
  exact value?_eq_some.2 ⟨_, _, tokens, nodes?_decimal known, sum?_decimal known⟩

theorem value?_plus_decimal {cs : List Char} {n : Nat} (known : decimal? cs = some n) :
    value? ρ (String.ofList ('+' :: cs)) = some (n : Int) := by
  obtain ⟨some_digit, digits⟩ := digits_of_decimal? known
  refine value?_eq_some.2
    ⟨["+", String.ofList cs], [.token "+", .token (String.ofList cs)], ?_, ?_, ?_⟩
  · have length : tokenLength? '+' cs = some 1 := by
      cases cs with
      | nil => exact absurd rfl some_digit
      | cons c rest =>
        have digit := digits c List.mem_cons_self
        have plus : ('+' == c) = false := beq_false_of_ne fun same => by simp [← same] at digit
        have equals : ('=' == c) = false := beq_false_of_ne fun same => by simp [← same] at digit
        have noName : Text.isNameChar '+' = false := by decide
        have single : "+".length = 1 := rfl
        simp [tokenLength?, marks, List.find?, List.isPrefixOf, plus, equals, noName, single]
    rw [String.toList_ofList, tokens?, if_neg (by decide), length]
    simp [tokens?_digits some_digit digits]
  · have step : Grouping.step? ⟨[], []⟩ "+" = some ⟨[], [.token "+"]⟩ := rfl
    rw [nodes?, List.foldlM_cons, step]
    simp [step?_decimal known, Grouping.finish?]
  · rw [sum?]
    exact sum?_decimal known

end Value

end BasicSketch.Cpp.Sum
