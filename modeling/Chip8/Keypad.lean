import Chip8.Registers

namespace Chip8

structure Keypad where
  down : Vector Bool 16
deriving DecidableEq

namespace Keypad

def released : Keypad := ⟨Vector.replicate 16 false⟩

def keys : List UInt8 := (List.range 16).map .ofNat

variable (k : Keypad)

/-- Whether a key is pressed; there are no keys above fifteen. -/
def pressed (key : UInt8) : Bool :=
  if h : key.toNat < 16 then k.down[key.toNat] else false

def set (key : UInt8) (on : Bool) : Keypad :=
  if h : key.toNat < 16 then ⟨k.down.set key.toNat on⟩ else k

def ofPressed (keys : List UInt8) : Keypad :=
  keys.foldl (fun k key ↦ k.set key true) released

def capture (keyboard : UInt8 → Bool) : Keypad :=
  ⟨Vector.ofFn fun key ↦ keyboard (.ofNat key.val)⟩

def firstPressed : Option UInt8 := keys.find? k.pressed

end Keypad

inductive KeyLatch where
  | idle
  | awaitingPress (register : Register)
  | awaitingRelease (register : Register) (key : UInt8)
deriving DecidableEq

namespace KeyLatch

def isWaiting : KeyLatch → Bool
  | idle => false
  | _ => true

/-- Looks at the keypad for an instruction that wants a key in `x`. A latched key stays with the
register it was latched for; its release completes the wait. -/
def poll (latch : KeyLatch) (x : Register) (keys : Keypad) : KeyLatch × Option (Register × UInt8) :=
  match latch with
  | awaitingRelease register key =>
    if keys.pressed key then (latch, none) else (idle, some (register, key))
  | _ =>
    match keys.firstPressed with
    | some key => (awaitingRelease x key, none)
    | none => (awaitingPress x, none)

end KeyLatch

end Chip8
