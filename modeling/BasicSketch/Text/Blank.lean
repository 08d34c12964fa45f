set_option autoImplicit false

/-! Blank characters and trimming. -/

namespace BasicSketch.Text

def isBlank (c : Char) : Bool :=
  let n := c.toNat
  (9 ≤ n && n ≤ 13) || n == 0x20 || n == 0x85 || n == 0xA0 || n == 0x1680 ||
    (0x2000 ≤ n && n ≤ 0x200A) || n == 0x2028 || n == 0x2029 || n == 0x202F ||
    n == 0x205F || n == 0x3000

def dropBlanks (cs : List Char) : List Char := cs.dropWhile isBlank

def dropBlanksEnd (cs : List Char) : List Char := (dropBlanks cs.reverse).reverse

theorem length_dropBlanks_le (cs : List Char) : (dropBlanks cs).length ≤ cs.length := by
  unfold dropBlanks
  induction cs with
  | nil => simp
  | cons c rest ih =>
    by_cases blank : isBlank c
    · simp [blank]; omega
    · simp [blank]

theorem length_dropBlanksEnd_le (cs : List Char) : (dropBlanksEnd cs).length ≤ cs.length := by
  simpa [dropBlanksEnd] using length_dropBlanks_le cs.reverse

def trim (s : String) : String := String.ofList (dropBlanksEnd (dropBlanks s.toList))

@[simp] theorem toList_trim (s : String) :
    (trim s).toList = dropBlanksEnd (dropBlanks s.toList) := by simp [trim]

theorem length_trim_le (s : String) : (trim s).length ≤ s.length := by
  rw [← String.length_toList, toList_trim, ← String.length_toList]
  exact Nat.le_trans (length_dropBlanksEnd_le _) (length_dropBlanks_le _)

end BasicSketch.Text
