set_option autoImplicit false

/-! Decimal numbers. -/

namespace BasicSketch.Text

def maxWord : Nat := 0xFFFFFFFF

def maxLong : Nat := 0xFFFFFFFFFFFFFFFF

def maxSigned : Int := 0x7FFFFFFFFFFFFFFF

def minSigned : Int := -0x8000000000000000

def digitsValue (cs : List Char) : Nat :=
  cs.foldl (fun n c => 10 * n + (c.toNat - 48)) 0

def readDigits? (cs : List Char) : Option Nat :=
  if cs.isEmpty || !cs.all Char.isDigit then none else some (digitsValue cs)

def readWithin? (limit : Nat) (cs : List Char) : Option Nat := (readDigits? cs).filter (· ≤ limit)

def readUnsigned? (limit : Nat) (s : String) : Option Nat :=
  match s.toList with
  | '+' :: rest => readWithin? limit rest
  | cs => readWithin? limit cs

def readSigned? (s : String) : Option Int :=
  let value := match s.toList with
    | '+' :: rest => (readDigits? rest).map Int.ofNat
    | '-' :: rest => (readDigits? rest).map (fun n => -Int.ofNat n)
    | cs => (readDigits? cs).map Int.ofNat
  value.filter (fun n => minSigned ≤ n && n ≤ maxSigned)

def padLeft (width : Nat) (fill : Char) (s : String) : String :=
  String.ofList (List.replicate (width - s.length) fill) ++ s

def padRight (width : Nat) (s : String) : String :=
  s ++ String.ofList (List.replicate (width - s.length) ' ')

def padded (width n : Nat) : String := padLeft width '0' (toString n)

end BasicSketch.Text
