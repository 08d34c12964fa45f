import BasicSketch.Text.Letters

set_option autoImplicit false

/-! Display libraries: how they are recognised, their display object and their colours. -/

namespace BasicSketch

inductive Display where
  | tftEspi | adafruitGfx | u8g2 | lvgl
  deriving DecidableEq, Repr

namespace Display

def ofInclude? (target : String) : Option Display :=
  let target := Text.lower target
  if Text.contains target "tft_espi" then some .tftEspi
  else if ["adafruit_gfx", "adafruit_ssd", "adafruit_st", "adafruit_ili"].any
      (Text.contains target) then some .adafruitGfx
  else if Text.contains target "u8g2" || Text.contains target "u8x8" then some .u8g2
  else if Text.contains target "lvgl" then some .lvgl
  else none

def object : Display → String
  | .tftEspi => "tft"
  | .adafruitGfx => "display"
  | .u8g2 => "u8g2"
  | .lvgl => "lv"

/-- The spellings of a colour for 16-bit panels, for panels with named colours, and for
monochrome panels. -/
structure Ink where
  tft : String
  named : String
  mono : String

def basicInks : List (String × Ink) :=
  [("black", ⟨"TFT_BLACK", "BLACK", "0"⟩), ("white", ⟨"TFT_WHITE", "WHITE", "1"⟩),
   ("red", ⟨"TFT_RED", "RED", "1"⟩), ("green", ⟨"TFT_GREEN", "GREEN", "1"⟩),
   ("blue", ⟨"TFT_BLUE", "BLUE", "1"⟩), ("yellow", ⟨"TFT_YELLOW", "YELLOW", "1"⟩),
   ("cyan", ⟨"TFT_CYAN", "CYAN", "1"⟩), ("magenta", ⟨"TFT_MAGENTA", "MAGENTA", "1"⟩)]

def extendedInks : List (String × Ink) :=
  [("orange", ⟨"TFT_ORANGE", "ORANGE", "1"⟩), ("purple", ⟨"TFT_PURPLE", "MAGENTA", "1"⟩),
   ("pink", ⟨"TFT_PINK", "MAGENTA", "1"⟩), ("brown", ⟨"TFT_BROWN", "BROWN", "1"⟩),
   ("gray", ⟨"TFT_DARKGREY", "LIGHTGREY", "1"⟩),
   ("darkgray", ⟨"TFT_DARKGREY", "DARKGREY", "1"⟩),
   ("lightgray", ⟨"TFT_LIGHTGREY", "LIGHTGREY", "1"⟩)]

/-- The ink of a colour constant. Names with `COLOR_` have all inks, names with `vb` the basic
ones. -/
def ink? (name : String) : Option Ink :=
  match (Text.lower name).toList with
  | 'c' :: 'o' :: 'l' :: 'o' :: 'r' :: '_' :: base =>
    (basicInks ++ extendedInks).lookup (String.ofList base)
  | 'v' :: 'b' :: base => basicInks.lookup (String.ofList base)
  | _ => none

def color? (display : Display) (name : String) : Option String :=
  (ink? name).map fun ink =>
    match display with
    | .adafruitGfx => ink.named
    | .u8g2 => ink.mono
    | .tftEspi | .lvgl => ink.tft

end Display

end BasicSketch
