import Chip8.Frame
import Chip8.Memory

namespace Chip8

/-- Values as other programs know them. A number is its digits, with so many of them behind the
point. -/
inductive Datum where
  | null
  | bool (b : Bool)
  | number (digits : Int) (places : Nat)
  | text (s : String)
  | list (items : List Datum)
  | record (fields : List (String × Datum))
deriving Inhabited

inductive Refusal where
  | malformed
  | program (e : SetupError)
  | frame (e : Frame.Mismatch)
deriving DecidableEq

def Refusal.message? : Refusal → Option String
  | malformed => none
  | program e => some e.message
  | frame e => some e.message

class Interchange (α : Type) where
  encode : α → Datum
  decode : Datum → Except Refusal α

namespace Interchange

instance : Interchange Bool where
  encode := .bool
  decode
    | .bool b => .ok b
    | _ => .error .malformed

def decodeBelow (bound : Nat) : Datum → Except Refusal Nat
  | .number (.ofNat n) 0 => if n < bound then .ok n else .error .malformed
  | _ => .error .malformed

def encodeNat (n : Nat) : Datum := .number n 0

abbrev below {α : Type} (bound : Nat) (toNat : α → Nat) (ofNat : Nat → α) : Interchange α where
  encode a := encodeNat (toNat a)
  decode d := (decodeBelow bound d).map ofNat

instance : Interchange UInt8 := below UInt8.size UInt8.toNat UInt8.ofNat

instance : Interchange UInt16 := below UInt16.size UInt16.toNat UInt16.ofNat

instance : Interchange UInt32 := below UInt32.size UInt32.toNat UInt32.ofNat

instance : Interchange UInt64 := below UInt64.size UInt64.toNat UInt64.ofNat

variable {α : Type} [Interchange α]

instance : Interchange (Option α) where
  encode
    | some a => encode a
    | none => .null
  decode
    | .null => .ok none
    | d => (decode d).map some

instance : Interchange (List α) where
  encode xs := .list (xs.map encode)
  decode
    | .list ds => ds.mapM decode
    | _ => .error .malformed

instance {n : Nat} : Interchange (Vector α n) where
  encode xs := encode xs.toList
  decode d := do
    let xs ← decode (α := List α) d
    if h : xs.toArray.size = n then .ok ⟨xs.toArray, h⟩ else .error .malformed

/-- The fields of a record, none of those with the names twice; there may be others. -/
def recordFields (names : List String) (fs : List (String × Datum)) :
    Except Refusal (List (String × Datum)) :=
  if ∀ name ∈ names, fs.countP (·.1 == name) ≤ 1 then .ok fs else .error .malformed

/-- The fields of a structure: a record gives them by name and may have others, a list gives them in
order and no others. -/
def fields (names : List String) : Datum → Except Refusal (List (String × Datum))
  | .record fs => recordFields names fs
  | .list ds => if ds.length = names.length then .ok (names.zip ds) else .error .malformed
  | _ => .error .malformed

def field (fs : List (String × Datum)) (name : String) : Except Refusal α :=
  match fs.lookup name with
  | some d => decode d
  | none => .error .malformed

def optionalField (fs : List (String × Datum)) (name : String) : Except Refusal (Option α) :=
  match fs.lookup name with
  | some d => decode d
  | none => .ok none

def alternative : Datum → Except Refusal (String × Option Datum)
  | .text name => .ok (name, none)
  | .record [(name, d)] => .ok (name, some d)
  | _ => .error .malformed

def plain : Option Datum → Except Refusal Unit
  | none => .ok ()
  | some .null => .ok ()
  | _ => .error .malformed

def carried : Option Datum → Except Refusal α
  | some d => decode d
  | none => .error .malformed

def named (names : List String) : Option Datum → Except Refusal (List (String × Datum))
  | some (.record fs) => recordFields names fs
  | _ => .error .malformed

def decodeName (names : List (String × α)) (d : Datum) : Except Refusal α := do
  let (name, rest) ← alternative d
  plain rest
  match names.lookup name with
  | some a => .ok a
  | none => .error .malformed

/-- The sides are read as words of 64 bits, and the pixels row by row. -/
instance : Interchange Frame where
  encode f := .record [
    ("width", encodeNat f.width),
    ("height", encodeNat f.height),
    ("pixels", encode f.pixels.toList)]
  decode d := do
    let fs ← fields ["width", "height", "pixels"] d
    let width : UInt64 ← field fs "width"
    let height : UInt64 ← field fs "height"
    let pixels : List Bool ← field fs "pixels"
    (Frame.ofParts width.toNat height.toNat pixels.toArray).mapError .frame

instance : Interchange Program where
  encode p := encode p.bytes
  decode d := do
    let bytes ← decode d
    (Program.ofBytes bytes).mapError .program

end Interchange

end Chip8
