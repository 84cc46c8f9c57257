import Chip8.Interchange.Machine

namespace Chip8.Interchange

def operationName : Operation → String
  | .copy => "Copy"
  | .or => "Or"
  | .and => "And"
  | .xor => "Xor"
  | .add => "Add"
  | .sub => "Sub"
  | .shiftRight => "ShiftRight"
  | .subReverse => "SubReverse"
  | .shiftLeft => "ShiftLeft"

def operations : List (String × Operation) :=
  [.copy, .or, .and, .xor, .add, .sub, .shiftRight, .subReverse, .shiftLeft].map fun op ↦
    (operationName op, op)

def alternativeOf (name : String) (fs : List (String × Datum)) : Datum :=
  .record [(name, .record fs)]

def onRegister (name : String) (x : Register) : Datum := alternativeOf name [("x", encode x)]

def onPair (name : String) (x y : Register) : Datum :=
  alternativeOf name [("x", encode x), ("y", encode y)]

def onByte (name : String) (x : Register) (byteName : String) (byte : UInt8) : Datum :=
  alternativeOf name [("x", encode x), (byteName, encode byte)]

def encodeCondition : Condition → Datum
  | .equalsByte x value => onByte "SkipIfEqualImmediate" x "value" value
  | .differsFromByte x value => onByte "SkipIfNotEqualImmediate" x "value" value
  | .equalsRegister x y => onPair "SkipIfEqualRegister" x y
  | .differsFromRegister x y => onPair "SkipIfNotEqualRegister" x y
  | .keyPressed x => onRegister "SkipIfKeyPressed" x
  | .keyReleased x => onRegister "SkipIfKeyNotPressed" x

def encodeInstruction : Instruction → Datum
  | .clearScreen => .text "ClearScreen"
  | .ret => .text "Return"
  | .jump target => .record [("Jump", encode target)]
  | .call target => .record [("Call", encode target)]
  | .skip condition => encodeCondition condition
  | .setByte x value => onByte "SetImmediate" x "value" value
  | .addByte x value => onByte "AddImmediate" x "value" value
  | .compute op x y => onPair (operationName op) x y
  | .setIndex address => .record [("SetIndex", encode address)]
  | .jumpWithOffset address => alternativeOf "JumpWithOffset" [("address", encode address)]
  | .random x mask => onByte "Random" x "mask" mask
  | .draw x y height =>
    alternativeOf "Draw" [("x", encode x), ("y", encode y), ("height", encode height)]
  | .readDelay x => onRegister "ReadDelayTimer" x
  | .waitForKey x => onRegister "WaitForKey" x
  | .setDelay x => onRegister "SetDelayTimer" x
  | .setSound x => onRegister "SetSoundTimer" x
  | .addToIndex x => onRegister "AddToIndex" x
  | .selectGlyph x => onRegister "FontCharacter" x
  | .storeDecimal x => onRegister "StoreBcd" x
  | .storeRegisters x => onRegister "StoreRegisters" x
  | .loadRegisters x => onRegister "LoadRegisters" x
  | .unknown word => .record [("Unknown", encode word)]

def registerInstructions : List (String × (Register → Instruction)) :=
  [("SkipIfKeyPressed", fun x ↦ .skip (.keyPressed x)),
   ("SkipIfKeyNotPressed", fun x ↦ .skip (.keyReleased x)),
   ("ReadDelayTimer", .readDelay),
   ("WaitForKey", .waitForKey),
   ("SetDelayTimer", .setDelay),
   ("SetSoundTimer", .setSound),
   ("AddToIndex", .addToIndex),
   ("FontCharacter", .selectGlyph),
   ("StoreBcd", .storeDecimal),
   ("StoreRegisters", .storeRegisters),
   ("LoadRegisters", .loadRegisters)]

def byteInstructions : List (String × String × (Register → UInt8 → Instruction)) :=
  [("SkipIfEqualImmediate", "value", fun x value ↦ .skip (.equalsByte x value)),
   ("SkipIfNotEqualImmediate", "value", fun x value ↦ .skip (.differsFromByte x value)),
   ("SetImmediate", "value", .setByte),
   ("AddImmediate", "value", .addByte),
   ("Random", "mask", .random)]

def pairInstructions : List (String × (Register → Register → Instruction)) :=
  [("SkipIfEqualRegister", fun x y ↦ .skip (.equalsRegister x y)),
   ("SkipIfNotEqualRegister", fun x y ↦ .skip (.differsFromRegister x y))]
    ++ operations.map fun (name, op) ↦ (name, .compute op)

def wordInstructions : List (String × (UInt16 → Instruction)) :=
  [("Jump", .jump), ("Call", .call), ("SetIndex", .setIndex), ("Unknown", .unknown)]

def plainInstructions : List (String × Instruction) :=
  [("ClearScreen", .clearScreen), ("Return", .ret)]

def decodeInstruction (d : Datum) : Except Refusal Instruction := do
  let (name, rest) ← alternative d
  if let some i := plainInstructions.lookup name then
    plain rest
    return i
  else if let some make := wordInstructions.lookup name then
    return make (← carried rest)
  else if let some make := registerInstructions.lookup name then
    let fs ← named ["x"] rest
    return make (← field fs "x")
  else if let some (byteName, make) := byteInstructions.lookup name then
    let fs ← named ["x", byteName] rest
    return make (← field fs "x") (← field fs byteName)
  else if let some make := pairInstructions.lookup name then
    let fs ← named ["x", "y"] rest
    return make (← field fs "x") (← field fs "y")
  else match name with
    | "JumpWithOffset" =>
      let fs ← named ["address"] rest
      return .jumpWithOffset (← field fs "address")
    | "Draw" =>
      let fs ← named ["x", "y", "height"] rest
      return .draw (← field fs "x") (← field fs "y") (← field fs "height")
    | _ => .error .malformed

instance : Interchange Instruction where
  encode := encodeInstruction
  decode := decodeInstruction

end Chip8.Interchange
