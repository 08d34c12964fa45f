import BasicSketch.Proofs.ExpressionParts
import BasicSketch.Proofs.History
import BasicSketch.Proofs.Layout
import BasicSketch.Proofs.PlainLines

set_option autoImplicit false

/-! What the text of a sketch declares of what it uses. -/

namespace BasicSketch

open Text

namespace Moment

def display? (m : Moment) : Option Display :=
  match m.deed with
  | .statement (.plain _ (.includeFile target)) => Display.ofInclude? target
  | _ => none

def draws (m : Moment) : Bool :=
  match m.deed with
  | .statement (.plain _ (.draw ..)) | .statement (.plain _ (.sprite ..)) => true
  | _ => false

def createsSprite (m : Moment) : Bool :=
  match m.deed with
  | .statement (.plain _ (.sprite .create ..)) => true
  | _ => false

def symbols (m : Moment) : Symbols :=
  if m.draws then m.sketch.setDrawn.symbols else m.sketch.symbols

end Moment

def selected (ms : List Moment) : Option Display := ms.findSome? Moment.display?

namespace Sketch

def screen (s : Sketch) : Option Display × Bool := (s.symbols.display, s.symbols.drawn)

def noteScreen (k : Option Display × Bool) (m : Moment) : Option Display × Bool :=
  (match m.display? with
    | none => k.1
    | some display => some (k.1.getD display),
   m.draws || k.2)

theorem foldl_noteScreen (k : Option Display × Bool) (ms : List Moment) :
    ms.foldl noteScreen k = (k.1 <|> selected ms, k.2 || ms.any Moment.draws) := by
  induction ms generalizing k with
  | nil => simp [selected]
  | cons m rest ih =>
    rw [List.foldl_cons, ih]
    obtain ⟨display, drawn⟩ := k
    cases found : m.display? <;> cases display <;>
      simp [noteScreen, selected, found, Bool.or_assoc, Bool.or_left_comm]

theorem screen_of_symbols {s t : Sketch} (same : t.symbols = s.symbols) : t.screen = s.screen := by
  rw [screen, screen, same]

theorem screen_emitDeclaration (s : Sketch) (isStatic : Bool) (d : Declaration) :
    (s.emitDeclaration isStatic d).screen = s.screen := by
  have text : (s.declarationText d).2.screen = s.screen := by
    unfold declarationText
    dsimp only
    repeat' split
    all_goals rfl
  obtain ⟨events, -, eq⟩ := emitDeclaration_eq s isStatic d
  rw [eq]
  split
  · rfl
  · exact (screen_of_symbols (symbols_emit ..)).trans text

theorem screen_emitArrayLiteral (s : Sketch) (a : ArrayLiteral) :
    (s.emitArrayLiteral a).screen = s.screen := by
  obtain ⟨events, -, eq⟩ := emitArrayLiteral_eq s a
  obtain ⟨globalNames, global⟩ := declareGlobal_frame s a.name
  obtain ⟨globalNames', localNames, declared⟩ := declare_frame s a.name
  rw [eq, global, declared]
  repeat' split
  · rfl
  · exact (screen_of_symbols (symbols_emitGlobal ..)).trans rfl
  · exact (screen_of_symbols (symbols_emit ..)).trans rfl

theorem log_screen : Log screen noteScreen where
  rests symbols _ := screen_of_symbols symbols
  silent _ _ _ st parted := by
    cases st with
    | plain n a =>
      cases a with
      | dim | static | procedureStart => rfl
      | _ => cases parted
    | _ => rfl
  performs {_ s} n a _ whole := by
    cases a with
    | includeFile target =>
      dsimp only [perform, addInclude, screen, noteScreen, Moment.display?, Moment.draws]
      cases s.symbols.display <;> cases Display.ofInclude? target <;> rfl
    | draw command arguments => exact screen_of_symbols (symbols_draw s command arguments)
    | sprite command sprite arguments =>
      exact screen_of_symbols (symbols_sprite s command sprite arguments)
    | arrayLiteral literal => exact screen_emitArrayLiteral s literal
    | procedureEnd kind => exact screen_of_symbols (symbols_endProcedure s)
    | dim | static | procedureStart => cases whole
    | optionBase => rfl
    | _ => exact screen_of_symbols (symbols_perform s rfl)
  declares isStatic d _ := screen_emitDeclaration _ isStatic d
  takes _ _ s p := by
    unfold parameterText
    dsimp only
    split <;> rfl
  supplies _ _ _ _ := rfl

section

variable {options : Options} {sts : List Statement} {earlier later : List Moment} {m : Moment}

theorem screen_moment (split : momentsOf options sts = earlier ++ m :: later) :
    m.sketch.screen = (selected earlier, earlier.any Moment.draws) := by
  rw [log_screen.known_at split, foldl_noteScreen]
  simp [screen, empty]

theorem screen_end (options : Options) (sts : List Statement) :
    (ofStatements options sts).screen =
      (selected (momentsOf options sts), (momentsOf options sts).any Moment.draws) := by
  rw [log_screen.known_end, foldl_noteScreen]
  simp [screen, empty]

theorem usesTft_end (options : Options) (sts : List Statement) :
    (ofStatements options sts).symbols.usesTft =
      match selected (momentsOf options sts) with
      | some display => display == .tftEspi
      | none => (momentsOf options sts).any Moment.draws := by
  have display := congrArg Prod.fst (screen_end options sts)
  have drawn := congrArg Prod.snd (screen_end options sts)
  dsimp only [screen] at display drawn
  cases found : selected (momentsOf options sts) with
  | some other => simp [Symbols.usesTft, display, found]
  | none => simp [Symbols.usesTft, display, drawn, found]

end

end Sketch

namespace Moment

inductive NeedsTft (m : Moment) : Prop
  | command (n : Nat) (command : DrawCommand) (arguments : List Expr)
    (deed : m.deed = .statement (.plain n (.draw command arguments)))
    (panel : m.symbols.panel = .tftEspi)
  | sprite (creates : m.createsSprite = true)
  | color (onPanel : m.symbols.usesTft = true)

theorem draws_of_createsSprite {m : Moment} (creates : m.createsSprite = true) :
    m.draws = true := by
  unfold createsSprite at creates
  unfold draws
  split at creates
  · rename_i deed
    rw [deed]
  · cases creates

theorem symbols_display (m : Moment) : m.symbols.display = m.sketch.symbols.display := by
  unfold symbols
  split <;> rfl

theorem symbols_drawn (m : Moment) : m.symbols.drawn = (m.draws || m.sketch.symbols.drawn) := by
  unfold symbols
  cases m.draws <;> rfl

end Moment

open Sketch

section

variable {options : Options} {sts : List Statement} {earlier later : List Moment} {m : Moment}

theorem needsTft_cases (split : momentsOf options sts = earlier ++ m :: later)
    (needs : m.NeedsTft) :
    selected earlier = some .tftEspi ∨
      (momentsOf options sts).any Moment.draws = true ∧
        (selected earlier = none ∨ m.createsSprite = true) := by
  have display : m.symbols.display = selected earlier :=
    m.symbols_display.trans (congrArg Prod.fst (screen_moment split))
  have drawn : m.symbols.drawn = (m.draws || earlier.any Moment.draws) := by
    rw [m.symbols_drawn]
    exact congrArg (m.draws || ·) (congrArg Prod.snd (screen_moment split))
  -- what is drawn at this moment or before it is drawn in the program
  have among (drawing : m.symbols.drawn = true) :
      (momentsOf options sts).any Moment.draws = true := by
    rw [drawn, Bool.or_eq_true_iff] at drawing
    rw [split, List.any_append, List.any_cons]
    rcases drawing with here | before
    · simp [here]
    · simp [before]
  cases needs with
  | command n command arguments deed panel =>
    have draws : m.draws = true := by rw [Moment.draws, deed]
    rw [Symbols.panel, display] at panel
    cases found : selected earlier with
    | some other => exact Or.inl (congrArg some (by simpa [found] using panel))
    | none => exact Or.inr ⟨among (by rw [drawn, draws]; rfl), Or.inl rfl⟩
  | sprite creates =>
    have draws := Moment.draws_of_createsSprite creates
    exact Or.inr ⟨among (by rw [drawn, draws]; rfl), Or.inr creates⟩
  | color onPanel =>
    rw [Symbols.usesTft, display] at onPanel
    cases found : selected earlier with
    | some other => exact Or.inl (congrArg some (by simpa [found] using onPanel))
    | none => exact Or.inr ⟨among (by simpa [found] using onPanel), Or.inl rfl⟩

theorem usesTft_or_other (split : momentsOf options sts = earlier ++ m :: later)
    (needs : m.NeedsTft) :
    (Sketch.ofStatements options sts).symbols.usesTft = true ∨
      (Sketch.ofStatements options sts).symbols.usesTft = false ∧
      ∃ display, selected (momentsOf options sts) = some display ∧ display ≠ .tftEspi ∧
        (selected earlier = none ∨ m.createsSprite = true) := by
  rw [usesTft_end]
  rcases needsTft_cases split needs with before | ⟨drawn, late⟩
  -- the first library stays selected
  · have still : selected (momentsOf options sts) = some .tftEspi := by
      rw [split, selected, List.findSome?_append, ← selected, before]
      rfl
    rw [still]
    exact Or.inl rfl
  · cases found : selected (momentsOf options sts) with
    | none => exact Or.inl drawn
    | some display =>
      by_cases same : display = .tftEspi
      · exact Or.inl (by simp [same])
      · exact Or.inr ⟨by simp [same], display, rfl, same, late⟩

end

theorem Cpp.builtin?_rgb (σ : Symbols) (arguments : List (List Token)) (r g b : String) :
    builtin? σ "rgb" arguments [r, g, b] = some (rgb σ.usesTft r g b) := by
  simp [builtin?]

theorem Cpp.write_rgb {σ : Symbols} {mode : Mode} {before rest inside tail : List Token}
    {t close : Token} {r g b : List Token} (name : t.kind = .identifier)
    (word : lower t.text = "rgb") (free : before.head?.any (·.kind.isMember) = false)
    (use : mode ≠ .target) (list : argumentList? rest = some (inside, close, tail))
    (arguments : splitArguments inside = [r, g, b]) :
    write σ mode before (t :: rest) =
      gapText before t ++ rgb σ.usesTft (trim (write σ .value [] r)) (trim (write σ .value [] g))
        (trim (write σ .value [] b)) ++ write σ mode (close :: before) tail := by
  refine write_builtin name word (by decide) (by decide) free use list ?_
  rw [arguments]
  exact builtin?_rgb _ _ _ _ _

structure Moment.ShowsTft (m : Moment) : Prop where
  command : ∀ n command arguments, m.deed = .statement (.plain n (.draw command arguments)) →
    ∃ call, m.sketch.perform (.draw command arguments) =
      m.sketch.setDrawn.emit (m.symbols.panel.object ++ "." ++ call)
  sprite : ∀ n sprite arguments, m.deed = .statement (.plain n (.sprite .create sprite arguments)) →
    m.sketch.sprites.contains sprite = false → ∃ sprites created comment,
      m.sketch.perform (.sprite .create sprite arguments) =
        (({ m.sketch.setDrawn with sprites }.emitGlobal
          s!"TFT_eSprite {sprite} = TFT_eSprite(&tft);").emitSetup created).emit comment
  color : ∀ t : Token, t.kind = .identifier → lower t.text = "rgb" →
    (∀ mode before rest inside close tail r g b, mode ≠ .target →
      before.head?.any (·.kind.isMember) = false →
      Cpp.argumentList? rest = some (inside, close, tail) →
      Cpp.splitArguments inside = [r, g, b] → ∃ red green blue,
        Cpp.write m.symbols mode before (t :: rest) =
          Cpp.gapText before t ++ Cpp.rgb m.symbols.usesTft red green blue ++
            Cpp.write m.symbols mode (close :: before) tail) ∧
    ∀ mode text front rest, Token.ofLine text = front ++ t :: rest → Cpp.behindNew front = false →
      Cpp.BeginsPart m.symbols ⟨mode, [], Token.ofLine text⟩ front t rest

theorem Sketch.emitDraw_call (s : Sketch) (command : DrawCommand) (arguments : List Expr) :
    ∃ call, s.emitDraw command arguments =
      s.setDrawn.emit (s.setDrawn.symbols.panel.object ++ "." ++ call) := by
  have called (display : Display) (values : List String) :
      Cpp.called s!"{display.object}.{command.method}" values ++ ";" =
        display.object ++ "." ++ (Cpp.called command.method values ++ ";") := by
    simp [Cpp.called, String.append_assoc]
  unfold emitDraw
  dsimp only
  split
  · refine ⟨clearCall s.setDrawn.symbols.panel ++ ";", congrArg (emit _) ?_⟩
    simp [String.append_assoc]
  · exact ⟨_, congrArg (emit _) (called _ _)⟩

theorem Moment.showsTft (m : Moment) : m.ShowsTft where
  command n command arguments deed := by
    have draws : m.draws = true := by rw [draws, deed]
    rw [symbols, draws, if_pos rfl]
    exact emitDraw_call m.sketch command arguments
  sprite n sprite arguments deed new := by
    rw [perform, emitSprite]
    dsimp only
    rw [createSprite, if_neg (by simpa [setDrawn] using new)]
    exact ⟨_, _, _, rfl⟩
  color t name word := by
    refine ⟨fun mode before rest inside close tail r g b use free list arguments =>
      ⟨_, _, _, Cpp.write_rgb name word free use list arguments⟩, ?_⟩
    intro mode text front rest tokens fresh
    rw [tokens]
    exact Cpp.beginsPart m.symbols (by simp [Cpp.isBorder, name]) mode [] front rest fresh

namespace Sketch

theorem mem_unitLines_tft {s : Sketch} (uses : s.symbols.usesTft = true) :
    "TFT_eSPI tft;" ∈ s.unitLines := by
  simp [unitLines, globalLines, uses]

theorem helpers_in_unitLines {s : Sketch} (uses : s.usesHelpers = true) :
    "#include <vector>" ∈ s.unitLines ∧ helperLines <:+: s.unitLines := by
  refine ⟨by simp [unitLines, includeLines, uses], ?_⟩
  simp only [unitLines, uses, if_true, List.append_assoc]
  exact (List.prefix_append helperLines _).isInfix.trans (((List.suffix_append _ _).trans
    (List.suffix_append _ _)).trans (List.suffix_append _ _)).isInfix

section

variable {s : Sketch} {line : String}

theorem calls_includeLines (mem : line ∈ s.includeLines) (calls : contains line "__vb_" = true) :
    ∃ target ∈ s.includes, line = "#include " ++ target := by
  obtain ⟨target, listed, rfl⟩ := List.mem_map.1 mem
  have fixed {known : String} (same : target = known)
      (free : contains ("#include " ++ known) "__vb_" = false) : False := by
    rw [same, free] at calls
    cases calls
  simp only [List.mem_append] at listed
  rcases listed with ((arduino | vector) | listed) | implied
  · exact (fixed (List.mem_singleton.1 arduino) (by decide)).elim
  · split at vector
    · exact (fixed (List.mem_singleton.1 vector) (by decide)).elim
    · cases vector
  · exact ⟨target, listed, rfl⟩
  · split at implied
    · exact (fixed (List.mem_singleton.1 implied) (by decide)).elim
    · cases implied

theorem calls_code {ls : List SketchLine} (mem : line ∈ ls.map SketchLine.render)
    (calls : contains line "__vb_" = true) (scanned : ls ⊆ s.globals ++ s.setup ++ s.loop ++
      s.procedures.flatMap Procedure.lines) : s.usesHelpers = true := by
  obtain ⟨l, here, rfl⟩ := List.mem_map.1 mem
  exact List.any_eq_true.2 ⟨l, scanned here, calls⟩

theorem calls_globalLines (mem : line ∈ s.globalLines) (calls : contains line "__vb_" = true) :
    s.usesHelpers = true := by
  rcases List.mem_append.1 mem with declared | code
  · split at declared
    · rw [List.mem_singleton.1 declared] at calls
      exact absurd calls (by decide)
    · cases declared
  · exact calls_code code calls fun l here => by simp [here]

theorem calls_procedureLines
    (mem : line ∈ s.procedures.flatMap fun p => p.lines.map SketchLine.render ++ [""])
    (calls : contains line "__vb_" = true) : s.usesHelpers = true := by
  obtain ⟨p, among, here⟩ := List.mem_flatMap.1 mem
  rcases List.mem_append.1 here with code | blank
  · refine calls_code code calls fun l here => List.mem_append_right _ ?_
    exact List.mem_flatMap.2 ⟨p, among, here⟩
  · rw [List.mem_singleton.1 blank] at calls
    exact absurd calls (by decide)

theorem not_calls_delay (n : Nat) : contains s!"    delay({n});" "__vb_" = false := by
  -- neither the words around it nor a digit is a `v`
  refine @hasPart_of_not_mem _ _ 'v' (by decide) fun mem => ?_
  have digit : 'v' ∈ (toString n).toList := by simpa using mem
  exact absurd (isDigit_of_mem_nat n _ digit) (by decide)

theorem calls_setupLines (mem : line ∈ s.setupLines) (calls : contains line "__vb_" = true) :
    s.usesHelpers = true := by
  have fixed {known : String} (free : contains known "__vb_" = false) (same : line = known) :
      s.usesHelpers = true := by
    rw [same, free] at calls
    cases calls
  simp only [setupLines, List.mem_append] at mem
  rcases mem with ((head | begins) | code) | close
  · rcases List.mem_cons.1 head with first | second
    · exact fixed (by decide) first
    · exact fixed (not_calls_delay _) (List.mem_singleton.1 second)
  · split at begins
    · exact fixed (by decide) (List.mem_singleton.1 begins)
    · cases begins
  · exact calls_code code calls fun l here => by simp [here]
  · exact fixed (by decide) (List.mem_singleton.1 close)

theorem calls_loopLines (mem : line ∈ s.loopLines) (calls : contains line "__vb_" = true) :
    s.usesHelpers = true := by
  simp only [loopLines, List.mem_append, List.mem_singleton] at mem
  rcases mem with (rfl | code) | rfl
  · exact absurd calls (by decide)
  · exact calls_code code calls fun l here => by simp [here]
  · exact absurd calls (by decide)

theorem calls_unitLines (mem : line ∈ s.unitLines) (calls : contains line "__vb_" = true) :
    s.usesHelpers = true ∨ (∃ target ∈ s.includes, line = "#include " ++ target) ∨
      line ∈ s.signatures := by
  have blank (mem : line ∈ [""]) : False := by
    rw [List.mem_singleton.1 mem] at calls
    exact absurd calls (by decide)
  simp only [unitLines, List.mem_append] at mem
  -- includes, forward declarations, helpers, globals, procedures, `setup` and `loop`, with the
  -- blank lines between them
  rcases mem with ((((((((mem | mem) | mem) | mem) | mem) | mem) | mem) | mem) | mem) | mem
  · exact Or.inr (Or.inl (calls_includeLines mem calls))
  · exact (blank mem).elim
  · split at mem
    · cases mem
    · exact Or.inr (Or.inr ((List.mem_append.1 mem).resolve_right blank))
  · split at mem
    · exact Or.inl ‹_›
    · cases mem
  · exact Or.inl (calls_globalLines mem calls)
  · exact (blank mem).elim
  · exact Or.inl (calls_procedureLines mem calls)
  · exact Or.inl (calls_setupLines mem calls)
  · exact (blank mem).elim
  · exact Or.inl (calls_loopLines mem calls)

end

end Sketch

/-- The panel object is declared where it is used, unless another display library comes first; the
functions that are called are defined, unless only forward declarations call them. -/
theorem unit_declares_what_it_uses (options : Options) (sts : List Statement) :
    let ms := momentsOf options sts
    let sketch := Sketch.ofStatements options sts
    (∀ earlier m later, ms = earlier ++ m :: later → m.ShowsTft ∧ (m.NeedsTft →
      "TFT_eSPI tft;" ∈ sketch.unitLines ∨
      sketch.symbols.usesTft = false ∧ ∃ display, selected ms = some display ∧
        display ≠ .tftEspi ∧ (selected earlier = none ∨ m.createsSprite = true))) ∧
    ∀ line ∈ sketch.unitLines, contains line "__vb_" = true →
      "#include <vector>" ∈ sketch.unitLines ∧ helperLines <:+: sketch.unitLines ∨
      (∃ target ∈ sketch.includes, line = "#include " ++ target) ∨
      sketch.usesHelpers = false ∧ line ∈ sketch.signatures := by
  intro ms sketch
  refine ⟨fun earlier m later split => ⟨m.showsTft, fun needs => ?_⟩, fun line mem calls => ?_⟩
  · exact (usesTft_or_other split needs).imp_left mem_unitLines_tft
  · cases uses : sketch.usesHelpers with
    | true => exact Or.inl (helpers_in_unitLines uses)
    | false =>
      have other := (calls_unitLines mem calls).resolve_left (by simp [sketch, uses])
      exact Or.inr (other.imp_right fun signature => ⟨rfl, signature⟩)

theorem unit_declares_join_not_panel :
    let sts : List Statement :=
      [.plain 1 (.procedureStart ⟨.sub, "Loop", [], none⟩), .plain 2 (.draw .clearDisplay []),
       .plain 3 (.assign "x" (.ofText "Join(a, b)")), .plain 4 (.includeFile "<lvgl.h>")]
    let sketch := Sketch.ofStatements .standard sts
    let call := "    x = __vb_join(a, String(b));"
    (∃ earlier m later, momentsOf .standard sts = earlier ++ m :: later ∧ m.NeedsTft ∧
      m.ShowsTft ∧ ("TFT_eSPI tft;" ∈ sketch.unitLines ∨
        sketch.symbols.usesTft = false ∧ ∃ display, selected (momentsOf .standard sts) =
          some display ∧ display ≠ .tftEspi ∧
            (selected earlier = none ∨ m.createsSprite = true))) ∧
    call ∈ sketch.unitLines ∧ contains call "__vb_" = true ∧
    ("#include <vector>" ∈ sketch.unitLines ∧ helperLines <:+: sketch.unitLines ∨
      (∃ target ∈ sketch.includes, call = "#include " ++ target) ∨
      sketch.usesHelpers = false ∧ call ∈ sketch.signatures) := by
  intro sts sketch call
  have cleared : ∃ earlier m later, momentsOf .standard sts = earlier ++ m :: later ∧
      m.symbols.usesTft = true := exists_moment 1 (by decide +kernel)
  have written : call ∈ sketch.loop.map SketchLine.render := by decide +kernel
  have line : call ∈ sketch.unitLines := by simp [unitLines, loopLines, written]
  have calls : contains call "__vb_" = true := by decide +kernel
  obtain ⟨earlier, m, later, split, onPanel⟩ := cleared
  obtain ⟨panel, helpers⟩ := unit_declares_what_it_uses .standard sts
  obtain ⟨shows, declared⟩ := panel earlier m later split
  exact ⟨⟨earlier, m, later, split, .color onPanel, shows, declared (.color onPanel)⟩, line, calls,
    helpers call line calls⟩

end BasicSketch
