import BasicSketch.Text.Letters

set_option autoImplicit false

namespace BasicSketch

structure Options where
  callNames : List String
  pointerTypes : List String
  valueTypes : List String
  startupDelay : Nat
  serialBuffer : Nat
  deriving DecidableEq, Repr

namespace Options

def standard : Options where
  callNames := []
  pointerTypes := ["BLEServer", "BLEService", "BLECharacteristic", "BLEAdvertising"]
  valueTypes := ["Preferences"]
  startupDelay := 1000
  serialBuffer := 1024

def isPointerType (o : Options) (type : String) : Bool :=
  o.pointerTypes.any (Text.sameWord type) && !o.valueTypes.any (Text.sameWord type)

end Options

end BasicSketch
