import BasicSketch.Proofs.DeclarationLog
import BasicSketch.Proofs.ExpressionParts
import BasicSketch.Proofs.PlainLines

set_option autoImplicit false

/-! Members of pointers. -/

namespace BasicSketch

namespace Cpp

variable {σ : Symbols} {object dot : Token}

theorem write_dot (name : object.kind = .identifier) (access : dot.kind = .symbol .dot)
    (direct : dot.gap = "") {mode : Mode} {before rest : List Token}
    (free : before.head?.any (·.kind.isMember) = false) :
    write σ mode (object :: before) (dot :: rest) =
      (if object.text ∈ σ.pointers then "->" else ".") ++
        write σ mode (dot :: object :: before) rest := by
  have gap : gapText (object :: before) dot = "" := by simp [gapText, name, direct]
  have follows : followsPointer σ (object :: before) dot = decide (object.text ∈ σ.pointers) := by
    simp [followsPointer, name, direct, free, Symbols.isPointer]
  rw [write_other (by simp [access]) (by simp [Token.isWord, TokenKind.isWord, access]), gap,
    spelling, access]
  simp [follows]

theorem part_dot (name : object.kind = .identifier) (access : dot.kind = .symbol .dot)
    (mode : Mode) {front rest : List Token} (free : endsInMember front = false) :
    ∃ use before r, Part σ ⟨mode, [], front ++ object :: dot :: rest⟩
      ⟨use, object :: before, dot :: r⟩ ∧
      BeginsAs rest r ∧ before.head?.any (·.kind.isMember) = false := by
  have single (r : List Token) : argumentList? (dot :: r) = none := by simp [argumentList?, access]
  have dotted : isBorder dot = false := by simp [isBorder, access]
  have inner : isBorder object = false := by simp [isBorder, name]
  have word : object.isWord = true := by simp [Token.isWord, TokenKind.isWord, name]
  cases made : behindNew front with
  | false =>
    obtain ⟨use, before, r, part, begins, member, -⟩ :=
      beginsPart σ inner mode [] front (dot :: rest) made
    obtain ⟨r', rfl⟩ := begins.head dotted
    have text : Place.text σ ⟨use, before, object :: dot :: r'⟩ =
        _ ++ Place.text σ ⟨use, object :: before, dot :: r'⟩ :=
      write_name (by simp [name]) (by simp [word, isOperatorWord, name]) (single r')
    exact ⟨use, before, r', part.trans (.tail _ text (.refl _)), begins.of_cons, member.trans free⟩
  | true =>
    obtain ⟨f, new, rfl, kind, fresh⟩ := exists_of_behindNew made
    obtain ⟨use, before, r, part, begins, -⟩ := @beginsPart new σ (by simp [isBorder, kind]) mode []
      f (object :: dot :: rest) fresh
    obtain ⟨r₁, rfl⟩ := begins.head inner
    obtain ⟨r₂, rfl⟩ := begins.of_cons.head dotted
    have text : Place.text σ ⟨use, before, new :: object :: dot :: r₂⟩ =
        _ ++ Place.text σ ⟨use, object :: new :: before, dot :: r₂⟩ :=
      write_new_bare kind word (single r₂)
    rw [List.append_assoc]
    exact ⟨use, new :: before, r₂, part.trans (.tail _ text (.refl _)), begins.of_cons.of_cons,
      by simp [TokenKind.isMember, kind]⟩

end Cpp

/-- A dot becomes an arrow if and only if a variable or a parameter of this spelling was declared as
a pointer before, in whatever procedure. -/
theorem arrow_iff_pointer_declared {options : Options} {sts : List Statement}
    {earlier later : List Moment} {m : Moment}
    (split : Sketch.momentsOf options sts = earlier ++ m :: later) (drawn : Bool) (mode : Cpp.Mode)
    {text : String} {front rest : List Token} {object dot : Token}
    (tokens : Token.ofLine text = front ++ object :: dot :: rest)
    (name : object.kind = .identifier) (access : dot.kind = .symbol .dot) (direct : dot.gap = "")
    (free : Cpp.endsInMember front = false) :
    let σ := { m.sketch.symbols with drawn }
    let declared := (declaredBy earlier).any fun e => e.isPointer && e.name == object.text
    (∀ m ∈ Sketch.momentsOf options sts, m.Prints) ∧
    (∀ use before r, before.head?.any (·.kind.isMember) = false →
      Cpp.write σ use (object :: before) (dot :: r) =
        (if declared then "->" else ".") ++ Cpp.write σ use (dot :: object :: before) r) ∧
    ∃ use before r, Cpp.Part σ ⟨mode, [], Token.ofLine text⟩ ⟨use, object :: before, dot :: r⟩ ∧
      Cpp.BeginsAs rest r ∧ before.head?.any (·.kind.isMember) = false := by
  intro σ declared
  refine ⟨fun m _ => m.prints, fun use before r apart => ?_, ?_⟩
  · have known := congrArg Known.pointers (Sketch.known_moment split)
    have iff : object.text ∈ σ.pointers ↔ declared = true := by
      rw [show σ.pointers = _ from known, Known.mem_pointers]
      simp [declared]
    simp only [Cpp.write_dot name access direct apart, iff]
  · rw [tokens]
    exact Cpp.part_dot name access mode free

theorem arrow_of_declared_pointer :
    let server : Declaration := ⟨"p", [], some ⟨"BLEServer", true⟩, false, none⟩
    let object : Token := ⟨.identifier, "", "p", 0⟩
    let dot : Token := ⟨.symbol .dot, "", ".", 1⟩
    let member : Token := ⟨.identifier, "", "start", 2⟩
    Token.ofLine "p.start" = [] ++ object :: dot :: [member] ∧
    ∃ earlier m later,
      Sketch.momentsOf .standard [.plain 1 (.dim [server]), .plain 2 (.call "p.start" [])] =
        earlier ++ m :: later ∧
      m.statement?.map Statement.line = some 2 ∧ m.Prints ∧
      ∃ use before r, Cpp.Part { m.sketch.symbols with drawn := false }
          ⟨.value, [], Token.ofLine "p.start"⟩ ⟨use, object :: before, dot :: r⟩ ∧
        Cpp.BeginsAs [member] r ∧
        Cpp.write { m.sketch.symbols with drawn := false } use (object :: before) (dot :: r) =
          "->" ++
            Cpp.write { m.sketch.symbols with drawn := false } use (dot :: object :: before) r := by
  intro server object dot member
  have tokens : Token.ofLine "p.start" = [] ++ object :: dot :: [member] := by decide +kernel
  refine ⟨tokens, ?_⟩
  have called : ∃ earlier m later,
      Sketch.momentsOf .standard [.plain 1 (.dim [server]), .plain 2 (.call "p.start" [])] =
        earlier ++ m :: later ∧
      m.statement?.map Statement.line = some 2 ∧
      ((declaredBy earlier).any fun e => e.isPointer && e.name == object.text) = true :=
    Sketch.exists_moment 2 (by decide +kernel)
  obtain ⟨earlier, m, later, split, line, declared⟩ := called
  obtain ⟨prints, text, use, before, r, part, begins, free⟩ :=
    arrow_iff_pointer_declared split false .value tokens rfl rfl rfl rfl
  have arrow := text use before r free
  rw [if_pos declared] at arrow
  exact ⟨earlier, m, later, split, line, prints m (by simp [split]), use, before, r, part, begins,
    arrow⟩

theorem arrow_without_visible_pointer :
    ∃ earlier m later,
      Sketch.momentsOf .standard (Program.ofSource
        "Sub A()\nDim p As BLEServer*\nEnd Sub\nSub B()\np.start()\nEnd Sub").statements =
          earlier ++ m :: later ∧
      m.statement?.map Statement.line = some 5 ∧
      (visible (declaredBy earlier) m.home "p").isNone = true ∧
      m.sketch.value (Expr.ofText "p.start") = "p->start" := by
  rw [Program.statements_ofSource (by decide +kernel)]
  exact Sketch.exists_moment 5 (by decide +kernel)

end BasicSketch
