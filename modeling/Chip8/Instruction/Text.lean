import Chip8.Instruction

namespace Chip8

def Condition.text : Condition → String
  | equalsByte x value => "SE " ++ x.name ++ ", " ++ Numeral.marked 2 value.toNat
  | differsFromByte x value => "SNE " ++ x.name ++ ", " ++ Numeral.marked 2 value.toNat
  | equalsRegister x y => "SE " ++ x.name ++ ", " ++ y.name
  | differsFromRegister x y => "SNE " ++ x.name ++ ", " ++ y.name
  | keyPressed x => "SKP " ++ x.name
  | keyReleased x => "SKNP " ++ x.name

def Operation.mnemonic : Operation → String
  | copy => "LD"
  | or => "OR"
  | and => "AND"
  | xor => "XOR"
  | add => "ADD"
  | sub => "SUB"
  | shiftRight => "SHR"
  | subReverse => "SUBN"
  | shiftLeft => "SHL"

namespace Instruction

def text : Instruction → String
  | clearScreen => "CLS"
  | ret => "RET"
  | jump target => "JP " ++ Numeral.marked 3 target.toNat
  | call target => "CALL " ++ Numeral.marked 3 target.toNat
  | skip condition => condition.text
  | setByte x value => "LD " ++ x.name ++ ", " ++ Numeral.marked 2 value.toNat
  | addByte x value => "ADD " ++ x.name ++ ", " ++ Numeral.marked 2 value.toNat
  | compute op x y => op.mnemonic ++ " " ++ x.name ++ ", " ++ y.name
  | setIndex address => "LD I, " ++ Numeral.marked 3 address.toNat
  | jumpWithOffset address =>
    "JP V0/" ++ (offsetRegister address).name ++ ", " ++ Numeral.marked 3 address.toNat
  | random x mask => "RND " ++ x.name ++ ", " ++ Numeral.marked 2 mask.toNat
  | draw x y height => "DRW " ++ x.name ++ ", " ++ y.name ++ ", " ++ toString height.toNat
  | readDelay x => "LD " ++ x.name ++ ", DT"
  | waitForKey x => "LD " ++ x.name ++ ", K"
  | setDelay x => "LD DT, " ++ x.name
  | setSound x => "LD ST, " ++ x.name
  | addToIndex x => "ADD I, " ++ x.name
  | selectGlyph x => "LD F, " ++ x.name
  | storeDecimal x => "LD B, " ++ x.name
  | storeRegisters x => "LD [I], " ++ x.name
  | loadRegisters x => "LD " ++ x.name ++ ", [I]"
  | unknown word => "DATA " ++ Numeral.marked 4 word.toNat

end Instruction

end Chip8
