import BasicSketch.Proofs.Lexeme
import BasicSketch.Proofs.Relexing
import BasicSketch.Proofs.Trimming

set_option autoImplicit false

/-! Slices of a text by byte offsets. -/

namespace BasicSketch

namespace Text

def dropBytes? : Nat → List Char → Option (List Char)
  | 0, cs => some cs
  | _ + 1, [] => none
  | n + 1, c :: cs => if c.utf8Size ≤ n + 1 then dropBytes? (n + 1 - c.utf8Size) cs else none

def takeBytes? : Nat → List Char → Option (List Char)
  | 0, _ => some []
  | _ + 1, [] => none
  | n + 1, c :: cs =>
    if c.utf8Size ≤ n + 1 then (takeBytes? (n + 1 - c.utf8Size) cs).map (c :: ·) else none

def slice? (text : String) (start stop : Nat) : Option String := do
  if stop < start then none
  let rest ← dropBytes? start text.toList
  return String.ofList (← takeBytes? (stop - start) rest)

open Token (byteSize byteSize_append)

theorem byteSize_step (c : Char) (a : List Char) :
    ∃ n, byteSize (c :: a) = n + 1 ∧ c.utf8Size ≤ n + 1 ∧ n + 1 - c.utf8Size = byteSize a := by
  obtain ⟨n, size⟩ := Nat.exists_eq_add_one.2 (Token.byteSize_pos (c := c) a)
  rw [byteSize] at size
  exact ⟨n, size, by omega, by omega⟩

theorem dropBytes?_append (a b : List Char) : dropBytes? (byteSize a) (a ++ b) = some b := by
  induction a with
  | nil => cases b <;> rfl
  | cons c a ih =>
    obtain ⟨n, size, fits, left⟩ := byteSize_step c a
    rw [size, List.cons_append, dropBytes?, if_pos fits, left, ih]

theorem takeBytes?_append (a b : List Char) : takeBytes? (byteSize a) (a ++ b) = some a := by
  induction a with
  | nil => cases b <;> rfl
  | cons c a ih =>
    obtain ⟨n, size, fits, left⟩ := byteSize_step c a
    rw [size, List.cons_append, takeBytes?, if_pos fits, left, ih, Option.map_some]

theorem slice?_of_split {text : String} {a b c : List Char} (split : text.toList = a ++ (b ++ c)) :
    slice? text (byteSize a) (byteSize a + byteSize b) = some (String.ofList b) := by
  have forward : ¬ byteSize a + byteSize b < byteSize a := by omega
  simp only [slice?, forward, if_false, split, dropBytes?_append, Nat.add_sub_cancel_left,
    Option.bind_eq_bind, Option.bind_some, takeBytes?_append, Option.pure_def]

end Text

namespace Token

open Text

variable {start : Nat} {cs : List Char} {ts before after : List Token} {line : String}

theorem Laid.split {t : Token} (laid : Laid start cs (before ++ t :: ts)) :
    ∃ a rest, cs = a ++ (t.text.toList ++ rest) ∧ t.start = start + byteSize a ∧
      Laid t.stop rest ts := by
  induction before generalizing start cs with
  | nil =>
    cases laid with
    | @token _ gap text rest kind _ white reads following =>
      exact ⟨gap, rest, by simp, rfl, by simpa [stop] using following⟩
  | cons u before ih =>
    cases laid with
    | @token _ gap text rest kind _ white reads following =>
      obtain ⟨a, rest', rfl, offset, laid'⟩ := ih following
      refine ⟨gap ++ text ++ a, rest', by simp, ?_, laid'⟩
      simp only [offset, byteSize_append, Nat.add_assoc]

theorem Laid.stop_getLast (laid : Laid start cs (ts ++ after)) {last : Token}
    (ends : ts.getLast? = some last) : last.stop = start + byteSize (covered ts) := by
  induction ts generalizing start cs with
  | nil => simp at ends
  | cons t ts ih =>
    cases laid with
    | @token _ gap text rest kind _ white reads following =>
      simp only [covered_cons, String.toList_ofList, byteSize_append]
      cases ts with
      | nil =>
        obtain rfl := Option.some.inj ends
        simp [Token.stop, covered, byteSize, Nat.add_assoc]
      | cons u more =>
        rw [ih following (by simpa using ends)]
        omega

theorem slice?_tokens {ts : List Token} {first last : Token}
    (whole : ofLine line = before ++ (ts ++ after)) (begins : ts.head? = some first)
    (ends : ts.getLast? = some last) : slice? line first.start last.stop = some (slice ts) := by
  cases ts with
  | nil => simp at begins
  | cons t more =>
    obtain rfl := Option.some.inj begins
    have laid := laid_ofLine line
    rw [whole, List.cons_append] at laid
    obtain ⟨a, rest, split, offset, following⟩ := laid.split
    obtain ⟨tail, covers⟩ := following.covered_prefix
    have pieces : covered (more ++ after) = covered more ++ covered after := by simp [covered]
    have stops : last.stop = t.stop + byteSize (covered more) := by
      cases more with
      | nil =>
        obtain rfl := Option.some.inj ends
        rfl
      | cons u more => exact following.stop_getLast (by simpa using ends)
    have text : (slice (t :: more)).toList = t.text.toList ++ covered more := toList_slice t more
    have parts : line.toList = a ++ ((slice (t :: more)).toList ++ (covered after ++ tail)) := by
      rw [split, ← covers, pieces, text]
      simp
    have found := slice?_of_split parts
    rw [String.ofList_toList, text, byteSize_append] at found
    rw [stops, Token.stop, offset, Nat.zero_add, Nat.add_assoc]
    exact found

theorem Laid.rest (laid : Laid start cs ts) :
    ∃ gap, cs = covered ts ++ gap ∧ ∀ c ∈ gap, isGap c = true := by
  induction laid with
  | @done start gap white => exact ⟨gap, rfl, white⟩
  | @token start gap text rest kind ts white reads following ih =>
    obtain ⟨tail, rfl, whiteTail⟩ := ih
    exact ⟨tail, by simp, whiteTail⟩

theorem exists_slice_ofLine (line : String) :
    ∃ front back, line.toList = front ++ (slice (ofLine line)).toList ++ back ∧
      (∀ c ∈ front, isBlank c = true) ∧ ∀ c ∈ back, isBlank c = true := by
  obtain ⟨back, whole, white⟩ := (laid_ofLine line).rest
  have blank : ∀ c ∈ back, isBlank c = true := fun c mem => isBlank_of_isGap (white c mem)
  cases tokens : ofLine line with
  | nil => exact ⟨[], back, by rw [whole, tokens]; rfl, nofun, blank⟩
  | cons t ts =>
    have gap : ∀ c ∈ t.gap.toList, isBlank c = true := fun c mem =>
      isBlank_of_isGap (isGap_of_mem_ofLine (tokens ▸ List.mem_cons_self) c mem)
    exact ⟨t.gap.toList, back, by rw [whole, tokens, covered_cons, toList_slice], gap, blank⟩

theorem trim_slice_ofLine (line : String) : trim (slice (ofLine line)) = trim line := by
  obtain ⟨front, back, whole, white, white'⟩ := exists_slice_ofLine line
  rw [trim, trim, whole, trim_append white', dropBlanks, dropBlanks,
    List.dropWhile_append_of_pos white]

theorem slice_ofLine {line : String} (tight : trim line = line) : slice (ofLine line) = line := by
  obtain ⟨front, back, whole, -⟩ := exists_slice_ofLine line
  have short := length_trim_le (slice (ofLine line))
  rw [trim_slice_ofLine, tight, ← String.length_toList, ← String.length_toList] at short
  have size := congrArg List.length whole
  simp only [List.length_append] at size
  rw [List.eq_nil_of_length_eq_zero (l := front) (by omega),
    List.eq_nil_of_length_eq_zero (l := back) (by omega), List.nil_append, List.append_nil] at whole
  exact (String.toList_injective whole).symm

end Token

end BasicSketch
