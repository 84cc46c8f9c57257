import Chip8.Machine.Run

namespace Chip8.Headless

def demo : List UInt8 :=
  [0x60, 0x00, 0x61, 0x00, 0x62, 0x02, 0xF0, 0x29, 0xD1, 0x25, 0x70, 0x01, 0x71, 0x06,
   0x30, 0x08, 0x12, 0x06, 0x12, 0x12]

def defaultTicks : Nat := 2000

def config : Config := { seed := some 0xC8 }

def ticksPerTimerTick : Nat := max (config.rate / timerRate).toNat 1

inductive TickError where
  | empty
  | invalidDigit
  | overflow
deriving DecidableEq

structure FileError where
  code : Nat
  kind : String
  message : String
deriving DecidableEq

namespace FileError

def notFound : FileError := ⟨2, "NotFound", "No such file or directory"⟩

def permissionDenied : FileError := ⟨13, "PermissionDenied", "Permission denied"⟩

def notDirectory : FileError := ⟨20, "NotADirectory", "Not a directory"⟩

def isDirectory : FileError := ⟨21, "IsADirectory", "Is a directory"⟩

def nameTooLong : FileError := ⟨36, "InvalidFilename", "File name too long"⟩

def text (e : FileError) : String :=
  "Os \x7b code: " ++ toString e.code ++ ", kind: " ++ e.kind ++ ", message: \"" ++ e.message
    ++ "\" \x7d"

end FileError

inductive Error where
  | file (e : FileError)
  | ticks (e : TickError)
  | setup (e : SetupError)
deriving DecidableEq

def digit? (c : Char) : Option Nat :=
  if c.isDigit then some (c.toNat - '0'.toNat) else none

def appendDigit (n : Nat) (c : Char) : Except TickError Nat :=
  match digit? c with
  | none => .error .invalidDigit
  | some d => if 10 * n + d < UInt64.size then .ok (10 * n + d) else .error .overflow

/-- Reads a number of ticks: decimal digits, with at most one plus sign in front. The first
character that makes it impossible decides on the error. -/
def parseTicks (s : String) : Except TickError Nat :=
  match s.toList with
  | [] => .error .empty
  | ['+'] => .error .invalidDigit
  | '+' :: digits => digits.foldlM appendDigit 0
  | digits => digits.foldlM appendDigit 0

def TickError.text : TickError → String
  | empty => "Empty"
  | invalidDigit => "InvalidDigit"
  | overflow => "PosOverflow"

def Error.text : Error → String
  | file e => e.text
  | ticks e => "ParseIntError \x7b kind: " ++ e.text ++ " \x7d"
  | setup (.programTooLarge size) =>
    "RomTooLarge \x7b len: " ++ toString size ++ ", max: "
      ++ toString Layout.programCapacity ++ " \x7d"
  | setup .zeroRate => "ZeroCpuRate"

structure Report where
  exit : UInt32
  stdout : String
  stderr : String
deriving DecidableEq

def picture (rom : List UInt8) (ticks : Nat) : Except SetupError Frame := do
  let m ← Machine.load rom config (.cycle #[])
  let (m, _) := m.followTicks .released ticksPerTimerTick ticks (fun u _ ↦ u) ()
  return m.state.display.frame

theorem picture_eq_map_run (rom : List UInt8) (ticks : Nat) : picture rom ticks =
    (Machine.load rom config (.cycle #[])).map fun m ↦
      (m.run (Event.interleaved .released ticksPerTimerTick ticks)).state.display.frame := by
  simp only [picture, Machine.followTicks_eq_follow, Machine.follow_fst]
  cases Machine.load rom config (.cycle #[]) with
  | error e => rfl
  | ok m => rfl

/-- What a program, given by the contents of its file unless it is the built-in one, and a number
of ticks lead to. A file that cannot be read comes before a bad number, and that before a bad
program. -/
def report (file : Option (Except FileError (List UInt8))) (ticks : Option String) : Report :=
  let result : Except Error Frame := do
    let rom ← file.getD (.ok demo) |>.mapError .file
    let n ← (ticks.map parseTicks).getD (.ok defaultTicks) |>.mapError .ticks
    (picture rom n).mapError .setup
  match result with
  | .ok frame => ⟨0, frame.text, ""⟩
  | .error e => ⟨1, "", "Error: " ++ e.text ++ "\n"⟩

def run {m : Type → Type} [Monad m] (read : String → m (Except FileError (List UInt8)))
    (arguments : List String) : m Report := do
  let file ← arguments.head?.mapM read
  return report file arguments[1]?

end Chip8.Headless
