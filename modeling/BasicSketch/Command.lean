import BasicSketch.Text.Letters

set_option autoImplicit false

/-!
Statements with a fixed name and number of arguments: board functions, drawing commands, and
commands on sprites.
-/

namespace BasicSketch

structure Arity where
  least : Nat
  most : Nat
  deriving DecidableEq, Repr

namespace Arity

def admits (a : Arity) (count : Nat) : Bool := a.least ≤ count && count ≤ a.most

end Arity

inductive BoardFunction where
  | pinMode | digitalWrite | digitalRead | analogWrite | analogRead | delay | serialBegin
  | serialPrint | serialPrintLine | deepSleep | lightSleep | hibernate | wakeOnInterrupt
  deriving DecidableEq, Repr

namespace BoardFunction

def name : BoardFunction → String
  | .pinMode => "PinMode"
  | .digitalWrite => "DigitalWrite"
  | .digitalRead => "DigitalRead"
  | .analogWrite => "AnalogWrite"
  | .analogRead => "AnalogRead"
  | .delay => "Delay"
  | .serialBegin => "SerialBegin"
  | .serialPrint => "SerialPrint"
  | .serialPrintLine => "SerialPrintLine"
  | .deepSleep => "DeepSleep"
  | .lightSleep => "LightSleep"
  | .hibernate => "Hibernate"
  | .wakeOnInterrupt => "WakeOnInterrupt"

def spellings : List (String × BoardFunction) :=
  [("pinmode", pinMode), ("digitalwrite", digitalWrite), ("digitalread", digitalRead),
   ("analogwrite", analogWrite), ("analogread", analogRead), ("delay", delay),
   ("serialbegin", serialBegin), ("serialprint", serialPrint),
   ("serialprintline", serialPrintLine), ("deepsleep", deepSleep), ("lightsleep", lightSleep),
   ("hibernate", hibernate), ("wakeoninterrupt", wakeOnInterrupt)]

def ofName? (name : String) : Option BoardFunction := spellings.lookup (Text.lower name)

def arity : BoardFunction → Nat
  | .hibernate => 0
  | .pinMode | .digitalWrite | .analogWrite => 2
  | _ => 1

end BoardFunction

inductive DrawCommand where
  | drawLine | drawRect | fillRect | drawCircle | fillCircle | drawTriangle | fillTriangle
  | drawPixel | fillScreen | clearDisplay | setTextSize | setTextColor | setCursor | printText
  | printLine | setWindow | setAddrWindow | setViewport | resetViewport | frameViewport
  | setOrigin | pushPixel | pushBlock
  deriving DecidableEq, Repr

namespace DrawCommand

def name : DrawCommand → String
  | .drawLine => "DrawLine"
  | .drawRect => "DrawRect"
  | .fillRect => "FillRect"
  | .drawCircle => "DrawCircle"
  | .fillCircle => "FillCircle"
  | .drawTriangle => "DrawTriangle"
  | .fillTriangle => "FillTriangle"
  | .drawPixel => "DrawPixel"
  | .fillScreen => "FillScreen"
  | .clearDisplay => "ClearDisplay"
  | .setTextSize => "SetTextSize"
  | .setTextColor => "SetTextColor"
  | .setCursor => "SetCursor"
  | .printText => "PrintText"
  | .printLine => "PrintLine"
  | .setWindow => "SetWindow"
  | .setAddrWindow => "SetAddrWindow"
  | .setViewport => "SetViewport"
  | .resetViewport => "ResetViewport"
  | .frameViewport => "FrameViewport"
  | .setOrigin => "SetOrigin"
  | .pushPixel => "PushPixel"
  | .pushBlock => "PushBlock"

def spellings : List (String × DrawCommand) :=
  [("drawline", drawLine), ("drawrect", drawRect), ("fillrect", fillRect),
   ("drawcircle", drawCircle), ("fillcircle", fillCircle), ("drawtriangle", drawTriangle),
   ("filltriangle", fillTriangle), ("drawpixel", drawPixel), ("fillscreen", fillScreen),
   ("cleardisplay", clearDisplay), ("settextsize", setTextSize), ("settextcolor", setTextColor),
   ("setcursor", setCursor), ("printtext", printText), ("printline", printLine),
   ("setwindow", setWindow), ("setaddrwindow", setAddrWindow), ("setviewport", setViewport),
   ("resetviewport", resetViewport), ("frameviewport", frameViewport), ("setorigin", setOrigin),
   ("pushpixel", pushPixel), ("pushblock", pushBlock)]

def ofName? (name : String) : Option DrawCommand := spellings.lookup (Text.lower name)

def arity : DrawCommand → Arity
  | .drawLine | .drawRect | .fillRect => ⟨5, 5⟩
  | .drawCircle | .fillCircle => ⟨4, 4⟩
  | .drawTriangle | .fillTriangle => ⟨7, 7⟩
  | .drawPixel => ⟨3, 3⟩
  | .setWindow | .setAddrWindow | .setViewport => ⟨4, 4⟩
  | .clearDisplay | .resetViewport => ⟨0, 0⟩
  | .setTextColor => ⟨1, 2⟩
  | .setCursor | .frameViewport | .setOrigin | .pushBlock => ⟨2, 2⟩
  | .fillScreen | .setTextSize | .printText | .printLine | .pushPixel => ⟨1, 1⟩

def method : DrawCommand → String
  | .drawLine => "drawLine"
  | .drawRect => "drawRect"
  | .fillRect => "fillRect"
  | .drawCircle => "drawCircle"
  | .fillCircle => "fillCircle"
  | .drawTriangle => "drawTriangle"
  | .fillTriangle => "fillTriangle"
  | .drawPixel => "drawPixel"
  | .fillScreen => "fillScreen"
  | .clearDisplay => "clearDisplay"
  | .setTextSize => "setTextSize"
  | .setTextColor => "setTextColor"
  | .setCursor => "setCursor"
  | .printText => "print"
  | .printLine => "println"
  | .setWindow => "setWindow"
  | .setAddrWindow => "setAddrWindow"
  | .setViewport => "setViewport"
  | .resetViewport => "resetViewport"
  | .frameViewport => "frameViewport"
  | .setOrigin => "setOrigin"
  | .pushPixel => "pushColor"
  | .pushBlock => "pushBlock"

def endsInColor : DrawCommand → Bool
  | .drawLine | .drawRect | .fillRect | .drawCircle | .fillCircle | .drawPixel => true
  | _ => false

end DrawCommand

inductive SpriteCommand where
  | create | fill | fillEllipse | fillTriangle | push | delete
  deriving DecidableEq, Repr

namespace SpriteCommand

def name : SpriteCommand → String
  | .create => "Create"
  | .fill => "Fill"
  | .fillEllipse => "FillEllipse"
  | .fillTriangle => "FillTriangle"
  | .push => "Push"
  | .delete => "Delete"

def spellings : List (String × SpriteCommand) :=
  [("create_sprite", create), ("sprite_fill", fill), ("sprite_fill_ellipse", fillEllipse),
   ("sprite_fill_triangle", fillTriangle), ("sprite_push", push), ("sprite_delete", delete)]

def ofName? (name : String) : Option SpriteCommand := spellings.lookup (Text.lower name)

def arity : SpriteCommand → Arity
  | .create => ⟨2, 2⟩
  | .fill => ⟨1, 1⟩
  | .fillEllipse => ⟨5, 5⟩
  | .fillTriangle => ⟨7, 7⟩
  | .push => ⟨2, 3⟩
  | .delete => ⟨0, 0⟩

end SpriteCommand

end BasicSketch
