import BasicSketch.Cpp.Expression

set_option autoImplicit false

/-! Parentheses by counting. -/

namespace BasicSketch.Token

def isOpening (t : Token) : Bool := t.kind == .symbol .leftParen

def isClosing (t : Token) : Bool := t.kind == .symbol .rightParen

/-- The tokens close `depth` more parentheses than they open, and no beginning closes more. -/
def Closes (depth : Nat) (ts : List Token) : Prop :=
  ts.countP isClosing = ts.countP isOpening + depth ∧
    ∀ n, (ts.take n).countP isClosing ≤ (ts.take n).countP isOpening + depth

/-- The tokens begin with a parenthesis that is closed: what is inside, the parenthesis that
closes it, and what follows. -/
structure Group (ts inside : List Token) (close : Token) (rest : List Token) : Prop where
  opens : ts.head?.any isOpening = true
  whole : ts.tail = inside ++ close :: rest
  closing : isClosing close = true
  even : Closes 0 inside

variable {depth : Nat} {t : Token} {ts : List Token}

theorem closes_nil : Closes depth [] ↔ depth = 0 := by simp [Closes, eq_comm]

def depthBehind (depth : Nat) (t : Token) : Nat :=
  depth + (if isOpening t then 1 else 0) - if isClosing t then 1 else 0

theorem not_isOpening (closing : isClosing t = true) : isOpening t = false := by
  simp [isOpening, beq_iff_eq.1 closing]

theorem closes_cons : Closes depth (t :: ts) ↔
    ¬(depth = 0 ∧ isClosing t = true) ∧ Closes (depthBehind depth t) ts := by
  have apart := not_isOpening (t := t)
  constructor
  · rintro ⟨whole, starts⟩
    have one := starts 1
    simp only [List.take_succ_cons, List.take_zero, List.countP_singleton] at one
    refine ⟨fun ⟨zero, closing⟩ => ?_, ?_, fun n => ?_⟩
    · simp [zero, closing, apart closing] at one
    · rw [List.countP_cons, List.countP_cons] at whole
      rw [depthBehind]
      omega
    · have more := starts (n + 1)
      rw [List.take_succ_cons, List.countP_cons, List.countP_cons] at more
      rw [depthBehind]
      omega
  · rintro ⟨inner, whole, starts⟩
    have change : depth + (if isOpening t then 1 else 0) =
        depthBehind depth t + if isClosing t then 1 else 0 := by
      cases closing : isClosing t with
      | false => simp [depthBehind, closing]
      | true =>
        have positive : depth ≠ 0 := fun zero => inner ⟨zero, closing⟩
        simp [depthBehind, closing, apart closing]
        omega
    refine ⟨?_, fun n => ?_⟩
    · rw [List.countP_cons, List.countP_cons]
      omega
    · cases n with
      | zero => simp
      | succ n =>
        have less := starts n
        rw [List.take_succ_cons, List.countP_cons, List.countP_cons]
        omega

end BasicSketch.Token

namespace BasicSketch.Cpp

open Token

variable {depth : Nat} {t close : Token} {ts inside rest : List Token}

theorem closeParen?_cons : closeParen? depth (t :: ts) =
    if depth = 0 ∧ isClosing t = true then some ([], t, ts)
    else (closeParen? (depthBehind depth t) ts).map fun found => (t :: found.1, found.2) := by
  cases closing : isClosing t with
  | true =>
    cases depth <;> simp [closeParen?, depthBehind, not_isOpening closing, closing,
      beq_iff_eq.1 closing]
  | false =>
    have inner : t.kind ≠ .symbol .rightParen := by simpa [isClosing] using closing
    by_cases opening : t.kind = .symbol .leftParen
    · simp [closeParen?, depthBehind, isOpening, closing, opening]
    · have flat : isOpening t = false := by simpa [isOpening] using opening
      have level : depthBehind depth t = depth := by simp [depthBehind, flat, closing]
      rw [level, if_neg (by simp), closeParen?.eq_def]
      dsimp only
      split
      · contradiction
      · contradiction
      · contradiction
      · rfl

theorem closeParen?_eq_some : closeParen? depth ts = some (inside, close, rest) ↔
    ts = inside ++ close :: rest ∧ isClosing close = true ∧ Closes depth inside := by
  induction ts generalizing depth inside with
  | nil => simp [closeParen?]
  | cons t more ih =>
    rw [closeParen?_cons]
    split
    · rename_i last
      constructor
      · rintro ⟨⟩
        exact ⟨rfl, last.2, closes_nil.2 last.1⟩
      · rintro ⟨eq, -, closes⟩
        cases inside with
        | nil => simp_all
        | cons first inner =>
          obtain ⟨rfl, -⟩ := List.cons.inj eq
          exact absurd last (closes_cons.1 closes).1
    · rename_i inner
      rw [Option.map_eq_some_iff]
      constructor
      · rintro ⟨⟨before, _, _⟩, found, ⟨⟩⟩
        obtain ⟨rfl, closing, closes⟩ := ih.1 found
        exact ⟨rfl, closing, closes_cons.2 ⟨inner, closes⟩⟩
      · rintro ⟨eq, closing, closes⟩
        cases inside with
        | nil =>
          obtain ⟨rfl, -⟩ := List.cons.inj eq
          exact absurd ⟨closes_nil.1 closes, closing⟩ inner
        | cons first before =>
          obtain ⟨rfl, rfl⟩ := List.cons.inj eq
          exact ⟨_, ih.2 ⟨rfl, closing, (closes_cons.1 closes).2⟩, rfl⟩

theorem argumentList?_eq_some :
    argumentList? ts = some (inside, close, rest) ↔ Group ts inside close rest := by
  cases ts with
  | nil => exact ⟨(by cases ·), fun group => by cases group.opens⟩
  | cons opener more =>
    rw [argumentList?]
    split
    · rename_i opens
      rw [closeParen?_eq_some]
      exact ⟨fun found => ⟨opens, found.1, found.2.1, found.2.2⟩,
        fun group => ⟨group.whole, group.closing, group.even⟩⟩
    · rename_i other
      exact ⟨(by cases ·), fun group => absurd group.opens other⟩

end BasicSketch.Cpp
