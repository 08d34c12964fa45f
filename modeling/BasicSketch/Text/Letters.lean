set_option autoImplicit false

/-! Letter case, for the letters `A` to `Z` only. -/

namespace BasicSketch.Text

def lower (s : String) : String := String.ofList (s.toList.map Char.toLower)

@[simp] theorem toList_lower (s : String) : (lower s).toList = s.toList.map Char.toLower := by
  simp [lower]

def sameWord (a b : String) : Bool := lower a == lower b

theorem sameWord_iff (a b : String) : sameWord a b = true ↔ lower a = lower b := by
  simp [sameWord]

def isNameChar (c : Char) : Bool := c.isAlphanum || c == '_'

def hasPart (part : List Char) : List Char → Bool
  | [] => part.isEmpty
  | c :: rest => part.isPrefixOf (c :: rest) || hasPart part rest

def contains (s part : String) : Bool := hasPart part.toList s.toList

def endsWith (s last : String) : Bool := last.toList.isSuffixOf s.toList

end BasicSketch.Text
