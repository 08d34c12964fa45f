import BasicSketch.Proofs.ConditionMeaning
import BasicSketch.Proofs.CppSum
import BasicSketch.Proofs.DeclarationLog
import BasicSketch.Proofs.ExpressionParts
import BasicSketch.Proofs.PlainLines

set_option autoImplicit false

/-! Upper bounds of arrays. -/

namespace BasicSketch

open Text

namespace Cpp

def upperText (bound : String) : String :=
  if (readSigned? bound).isSome then bound else "(" ++ bound ++ ")"

def hasLeadingZero (bound : String) : Bool :=
  let digits := match bound.toList with
    | '+' :: rest => rest
    | cs => cs
  digits.all Char.isDigit && digits.head? == some '0' && digits != ['0']

section Bound

variable {ρ : List Sum.Node → Int} {bound : String} {value : Int}

theorem value?_upperText (known : Sum.value? ρ bound = some value) :
    Sum.value? ρ (upperText bound) = some value := by
  unfold upperText
  split
  · exact known
  · exact Sum.value?_paren known

theorem decimal?_readWithin? {limit n : Nat} {cs : List Char} (read : readWithin? limit cs = some n)
    (plain : (cs.all Char.isDigit && cs.head? == some '0' && cs != ['0']) = false) :
    decimal? cs = some n := by
  have digits : readDigits? cs = some n := by
    unfold readWithin? at read
    exact (Option.filter_eq_some_iff.1 read).1
  have all : cs.all Char.isDigit = true := by
    unfold readDigits? at digits
    split at digits
    · cases digits
    · rename_i some_digit
      exact (by simpa using some_digit : cs ≠ [] ∧ _).2 |> List.all_eq_true.2
  have canonical : ¬(cs.head? = some '0' ∧ cs ≠ ['0']) := by
    rintro ⟨zero, more⟩
    simp [all, zero, more] at plain
  rw [decimal?, if_neg canonical, digits]

theorem value?_readUnsigned? {limit n : Nat} (read : readUnsigned? limit bound = some n)
    (plain : hasLeadingZero bound = false) : Sum.value? ρ bound = some (n : Int) := by
  unfold readUnsigned? at read
  unfold hasLeadingZero at plain
  split at read
  · rename_i rest eq
    rw [eq] at plain
    have known := @Sum.value?_plus_decimal ρ _ _ (decimal?_readWithin? read plain)
    rwa [← eq, String.ofList_toList] at known
  · rename_i signless
    have known := decimal?_readWithin? read (by
      revert plain
      dsimp only
      split
      · rename_i rest eq
        exact absurd eq (signless rest)
      · exact id)
    simpa using @Sum.value?_decimal ρ _ _ known

theorem value?_dimensionSize (known : Sum.value? ρ bound = some value)
    (plain : hasLeadingZero bound = false) :
    Sum.value? ρ (dimensionSize bound) = some (value + 1) := by
  unfold dimensionSize
  split
  · rename_i n read
    obtain rfl : (n : Int) = value :=
      Option.some.inj ((value?_readUnsigned? read plain).symm.trans known)
    have size := @Sum.value?_decimal ρ _ _ (decimal?_nat (n + 1))
    rwa [String.ofList_toList, Int.natCast_add] at size
  · exact Sum.value?_add_one known

end Bound

/-- The second argument of `UBound`, if there is one, is the number of the dimension. -/
def SelectsDimension (σ : Symbols) (extra : List (List Token)) (k : Nat) : Prop :=
  extra = [] ∧ k = 0 ∨
    ∃ d, extra = [d] ∧ readUnsigned? maxLong (trim (write σ .value [] d)) = some (k + 1)

section Write

variable {σ : Symbols} {mode : Mode} {before rest inside tail : List Token} {t close array : Token}
  {extra : List (List Token)} {bounds : List String} {k : Nat}

theorem builtin?_ubound {value : String}
    (known : σ.bounds.lookup (lower array.text) = some bounds) (inRange : 0 < bounds.length) :
    builtin? σ "ubound" [[array]] [value] = some (upperText bounds[0]) := by
  have found : bounds[0]? = some bounds[0] := List.getElem?_eq_getElem inRange
  simp [builtin?, upperBound?, known, found, upperText]

theorem builtin?_ubound_dimension {value d : String} {tokens : List Token}
    (known : σ.bounds.lookup (lower array.text) = some bounds) (inRange : k < bounds.length)
    (dimension : readUnsigned? maxLong d = some (k + 1)) :
    builtin? σ "ubound" [[array], tokens] [value, d] = some (upperText bounds[k]) := by
  have found : bounds[k]? = some bounds[k] := List.getElem?_eq_getElem inRange
  simp [builtin?, upperBound?, known, dimension, found, upperText]

theorem write_ubound (name : t.kind = .identifier) (word : lower t.text = "ubound")
    (free : before.head?.any (·.kind.isMember) = false) (use : mode ≠ .target)
    (list : argumentList? rest = some (inside, close, tail))
    (arguments : splitArguments inside = [array] :: extra)
    (dimension : SelectsDimension σ extra k)
    (known : σ.bounds.lookup (lower array.text) = some bounds) (inRange : k < bounds.length) :
    write σ mode before (t :: rest) =
      gapText before t ++ upperText bounds[k] ++ write σ mode (close :: before) tail := by
  refine write_builtin name word (by decide) (by decide) free use list ?_
  rw [arguments]
  rcases dimension with ⟨rfl, rfl⟩ | ⟨d, rfl, read⟩
  · exact builtin?_ubound known inRange
  · exact builtin?_ubound_dimension known inRange read

end Write

end Cpp

namespace Declared

def sizes (e : Declared) : List String :=
  match e.kind with
  | .array bounds => bounds.map Cpp.dimensionSize
  | .literal elements => [toString elements.length]
  | _ => []

def ShowsSizes (e : Declared) : Prop :=
  match e.kind with
  | .array _ => ∃ star ∈ ["", "*"], e.text =
      e.lead ++ e.type ++ star ++ " " ++ e.name ++
        String.join (e.sizes.map fun size => "[" ++ size ++ "]") ++ ";"
  | .literal elements => e.text =
      e.lead ++ e.type ++ " " ++ e.name ++ "[] = \x7b" ++ ", ".intercalate elements ++ "\x7d;"
  | _ => True

/-- The bound of a dimension is a sum, and no octal number; a list of elements is not empty. -/
def isRegular (e : Declared) (k : Nat) : Bool :=
  match e.kind with
  | .array bounds =>
    bounds[k]?.all fun bound => Cpp.Sum.isSum bound && !Cpp.hasLeadingZero bound
  | .literal elements => !elements.isEmpty
  | _ => true

end Declared

theorem Sketch.showsSizes_variable (s : Sketch) (home : Home) (isStatic : Bool) (d : Declaration) :
    (s.variableDeclared home isStatic d).ShowsSizes := by
  cases array : d.isArray with
  | false => simp [Declared.ShowsSizes, Sketch.variableDeclared, array]
  | true =>
    have text : (s.variableDeclared home isStatic d).text =
        (if isStatic then "static " else "") ++ Cpp.typeName (d.type.map TypeRef.name) ++
          (if d.type.any TypeRef.pointer then "*" else "") ++ " " ++ d.name ++
          Sketch.sizes (d.dimensions.map s.value) ++ ";" := by
      simp [Sketch.variableDeclared, Sketch.declarationText, array, String.append_assoc]
    have kind : (s.variableDeclared home isStatic d).kind = .array (d.dimensions.map s.value) := by
      simp [Sketch.variableDeclared, array]
    unfold Declared.ShowsSizes Declared.sizes
    rw [kind]
    refine ⟨if d.type.any TypeRef.pointer then "*" else "", by split <;> simp, ?_⟩
    rw [text, Sketch.sizes]
    simp only [Sketch.variableDeclared, List.map_map, Function.comp_def]

theorem Moment.showsSizes (m : Moment) : ∀ e ∈ m.declared, e.ShowsSizes := by
  obtain ⟨home, s, deed⟩ := m
  cases deed with
  | supplies p => simp [declared]
  | takes inside p => simp [declared, Sketch.parameterDeclared, Declared.ShowsSizes]
  | declares isStatic d =>
    intro e mem
    simp only [declared] at mem
    split at mem
    · cases mem
    · rw [List.mem_singleton.1 mem]
      exact s.showsSizes_variable home isStatic d
  | statement st =>
    cases st with
    | inlineIf | inlineIfElse | every => simp [declared]
    | plain n a =>
      cases a with
      | arrayLiteral literal =>
        intro e mem
        simp only [declared, Sketch.actionDeclared] at mem
        split at mem
        · cases mem
        · rw [List.mem_singleton.1 mem]
          simp [Declared.ShowsSizes, Sketch.literalDeclared, String.append_assoc]
      | _ => simp [declared, Sketch.actionDeclared]

namespace Declared

theorem value?_nat (ρ : List Cpp.Sum.Node → Int) (n : Nat) :
    Cpp.Sum.value? ρ (toString n) = some (n : Int) := by
  have value := @Cpp.Sum.value?_decimal ρ _ _ (Cpp.decimal?_nat n)
  rwa [String.ofList_toList] at value

theorem bound_of_size {e : Declared} {k : Nat} (inRange : k < e.sizes.length)
    (regular : e.isRegular k = true) :
    ∃ bounds, e.bounds? = some bounds ∧ ∃ within : k < bounds.length, ∀ ρ, ∃ value,
      Cpp.Sum.value? ρ (Cpp.upperText bounds[k]) = some value ∧
      Cpp.Sum.value? ρ e.sizes[k] = some (value + 1) := by
  unfold isRegular at regular
  cases kind : e.kind with
  | single => simp [sizes, kind] at inRange
  | parameter => simp [sizes, kind] at inRange
  | array bounds =>
    have shape : e.sizes = bounds.map Cpp.dimensionSize := by simp [sizes, kind]
    have within : k < bounds.length := by simpa [shape] using inRange
    have kept : Cpp.Sum.isSum bounds[k] = true ∧ Cpp.hasLeadingZero bounds[k] = false := by
      simpa [kind, List.getElem?_eq_getElem within] using regular
    obtain ⟨sum, plain⟩ := kept
    refine ⟨bounds, by simp [bounds?, kind], within, fun ρ => ?_⟩
    obtain ⟨value, known⟩ := Cpp.Sum.exists_value sum ρ
    refine ⟨value, Cpp.value?_upperText known, ?_⟩
    simpa [shape] using Cpp.value?_dimensionSize known plain
  | literal elements =>
    have shape : e.sizes = [toString elements.length] := by simp [sizes, kind]
    obtain rfl : k = 0 := by simpa [shape] using inRange
    have some_element : elements ≠ [] := by simpa [kind] using regular
    refine ⟨[toString (elements.length - 1)], by simp [bounds?, kind], Nat.zero_lt_one, fun ρ => ?_⟩
    refine ⟨(elements.length - 1 : Nat), Cpp.value?_upperText (value?_nat ρ _), ?_⟩
    have count : 0 < elements.length := List.length_pos_iff.2 some_element
    have size : ((elements.length - 1 : Nat) : Int) + 1 = elements.length := by omega
    rw [size]
    simpa [shape] using value?_nat ρ elements.length

end Declared

/-- `UBound` of an array is written as one less than the size of the dimension in the last
declaration of this name. -/
theorem ubound_one_less_than_size {options : Options} {sts : List Statement}
    {earlier later : List Moment} {m : Moment}
    (split : Sketch.momentsOf options sts = earlier ++ m :: later) (drawn : Bool)
    {before after : List Declared} {e : Declared} (log : declaredBy earlier = before ++ e :: after)
    {array : Token} (named : e.isNamed array.text = true)
    (last : ∀ e' ∈ after, e'.isNamed array.text = true → e'.bounds? = none)
    {k : Nat} (inRange : k < e.sizes.length) (regular : e.isRegular k = true) :
    let σ := { m.sketch.symbols with drawn }
    (∀ m ∈ Sketch.momentsOf options sts, m.Prints ∧ ∀ e ∈ m.declared, e.ShowsSizes) ∧
    ∃ upper,
      (∀ ρ, ∃ value, Cpp.Sum.value? ρ upper = some value ∧
        Cpp.Sum.value? ρ e.sizes[k] = some (value + 1)) ∧
      ∀ t : Token, t.kind = .identifier → lower t.text = "ubound" →
        (∀ mode before rest inside close tail extra, mode ≠ .target →
          before.head?.any (·.kind.isMember) = false →
          Cpp.argumentList? rest = some (inside, close, tail) →
          Cpp.splitArguments inside = [array] :: extra → Cpp.SelectsDimension σ extra k →
          Cpp.write σ mode before (t :: rest) =
            Cpp.gapText before t ++ upper ++ Cpp.write σ mode (close :: before) tail) ∧
        ∀ mode text front rest, Token.ofLine text = front ++ t :: rest →
          Cpp.behindNew front = false →
          Cpp.BeginsPart σ ⟨mode, [], Token.ofLine text⟩ front t rest := by
  intro σ
  refine ⟨fun m _ => ⟨m.prints, m.showsSizes⟩, ?_⟩
  obtain ⟨bounds, array?, within, values⟩ := Declared.bound_of_size inRange regular
  have known : σ.bounds.lookup (lower array.text) = some bounds := by
    have told := congrArg Known.bounds (Sketch.known_moment split)
    rw [show σ.bounds = _ from told, log]
    exact Known.lookup_last named array? last
  refine ⟨Cpp.upperText bounds[k], values, fun t name word => ⟨?_, ?_⟩⟩
  · intro mode before rest inside close tail extra use free list arguments dimension
    exact Cpp.write_ubound name word free use list arguments dimension known within
  · intro mode text front rest tokens fresh
    rw [tokens]
    exact Cpp.beginsPart σ (by simp [Cpp.isBorder, name]) mode [] front rest fresh

theorem ubound_of_declared_array :
    let array : Declaration := ⟨"a", [.ofText "5"], some ⟨"Integer", false⟩, false, none⟩
    ∃ earlier m later e,
      Sketch.momentsOf .standard
        [.plain 1 (.dim [array]), .plain 2 (.assign "x" (.ofText "UBound(a)"))] =
          earlier ++ m :: later ∧
      m.statement?.map Statement.line = some 2 ∧ declaredBy earlier = [e] ∧
      e.isNamed "a" = true ∧ e.isRegular 0 = true ∧ e.sizes = ["6"] ∧
      ∃ upper, (∀ ρ, ∃ value, Cpp.Sum.value? ρ upper = some value ∧
          Cpp.Sum.value? ρ "6" = some (value + 1)) ∧
        Cpp.write { m.sketch.symbols with drawn := false } .value [] (Token.ofLine "UBound(a)") =
          upper := by
  intro array
  have assigned : ∃ earlier m later,
      Sketch.momentsOf .standard
        [.plain 1 (.dim [array]), .plain 2 (.assign "x" (.ofText "UBound(a)"))] =
          earlier ++ m :: later ∧
      m.statement?.map Statement.line = some 2 ∧
      (declaredBy earlier).map (fun e => (e.name, e.sizes, e.isRegular 0)) =
        [("a", ["6"], true)] :=
    Sketch.exists_moment 2 (by decide +kernel)
  obtain ⟨earlier, m, later, split, line, declared⟩ := assigned
  obtain ⟨e, log, entry⟩ := List.map_eq_singleton_iff.1 declared
  obtain ⟨name, sizes, regular⟩ : e.name = "a" ∧ e.sizes = ["6"] ∧ e.isRegular 0 = true := by
    simpa using entry
  have named : e.isNamed "a" = true := by simp [Declared.isNamed, name]
  have inRange : 0 < e.sizes.length := by simp [sizes]
  obtain ⟨-, upper, values, written⟩ := @ubound_one_less_than_size .standard _ earlier later m split
    false [] [] e log ⟨.identifier, "", "a", 7⟩ named (by simp) 0 inRange regular
  refine ⟨earlier, m, later, e, split, line, log, named, regular, sizes, upper, ?_, ?_⟩
  · simpa [sizes] using values
  · have tokens : Token.ofLine "UBound(a)" = [⟨.identifier, "", "UBound", 0⟩,
        ⟨.symbol .leftParen, "", "(", 6⟩, ⟨.identifier, "", "a", 7⟩,
        ⟨.symbol .rightParen, "", ")", 8⟩] := by decide +kernel
    rw [tokens, (written ⟨.identifier, "", "UBound", 0⟩ rfl (by decide)).1 .value [] _ _ _ _ []
      (by decide) rfl rfl rfl (.inl ⟨rfl, rfl⟩)]
    simp [Cpp.gapText, Cpp.write]

theorem ubound_of_invisible_array :
    ∃ earlier m later,
      Sketch.momentsOf .standard (Program.ofSource ("Dim a(5) As Integer\nSub First()\n" ++
        "Dim a(9) As Integer\nEnd Sub\nSub Second()\nx = UBound(a)\nEnd Sub")).statements =
          earlier ++ m :: later ∧
      m.statement?.map Statement.line = some 6 ∧
      (visible (declaredBy earlier) m.home "a").map Declared.sizes = some ["6"] ∧
      m.sketch.value (.ofText "UBound(a)") = "9" ∧
      Cpp.Sum.value? (fun _ => 0) "9" = some 9 ∧ Cpp.Sum.value? (fun _ => 0) "6" = some 6 := by
  rw [Program.statements_ofSource (by decide +kernel)]
  exact Sketch.exists_moment 7 (by decide +kernel)

end BasicSketch
